import DocumentMapper.Action
import DocumentMapper.Filter.Clause
import DocumentMapper.Pipeline.Stage

/-!
# Refinements of a pipeline

A refinement is one call of a query builder. It puts stages behind those that are there and looks
at them in one case only: a random sample without a size takes the size of the first limit. A
refinement that fails keeps the stages it has put down before it failed.
-/

namespace DocumentMapper

/-- The parts of a date by which documents are grouped. -/
inductive DatePart where
  | year
  | month
  | week
  | day
  deriving DecidableEq, Repr

namespace DatePart

def name : DatePart → String
  | year => "year"
  | month => "month"
  | week => "week"
  | day => "day"

/-- The expression of the part of a column. -/
def expression : DatePart → Value → Except Error Value
  | year => Expression.year
  | month => Expression.month
  | week => Expression.week
  | day => Expression.dayOfMonth

end DatePart

inductive Refinement where
  | stage (s : Stage)
  | raw (stage : Value)
  | raws (stages : Value)
  | clause (parts : List Value)
  | anyOf (alternatives : List Value)
  /-- Compares a column with other columns. -/
  | compare (column operator : Value) (others : List Value)
  | near (column place maxDistance : Value)
  /-- Filters by the length of an array, which becomes a column of its own. -/
  | arraySize (column : Value) (condition : List Value)
  | select (columns : List Value)
  | deselect (columns : List Value)
  | project (payload : Value)
  | addFields (fields : Value)
  | addField (field content : Value)
  | unwind (column keepEmpty index : Value)
  | lookup (options : Value)
  | sort (column direction : Value)
  | sortBy (columns : Value)
  /-- Takes documents at random, as many as the first limit says if no size is given. -/
  | sample (size : Value)
  | skip (count : Value)
  | limit (count : Value)
  | group (key accumulators : Value)
  | groupByDate (parts : List DatePart) (column accumulators : Value)
  | reset

namespace Refinement

/-- Puts a stage behind those that are there. -/
def add (s : Stage) : Action (List Stage) Unit :=
  modify (· ++ [s])

/-- Puts a stage down, or fails for the reason why there is none. -/
def addIf (s : Except Error Stage) : Action (List Stage) Unit := do
  add (← Action.ofExcept s)

def addClause (parts : List Value) : Action (List Stage) Unit :=
  addIf (Stage.filter <$> Filter.ofClause parts)

def addRaws : List Value → Action (List Stage) Unit
  | [] => return
  | v :: rest => do
    addIf (Stage.ofValue v)
    addRaws rest

/-- Adds one field; its name must be fit to be a key. -/
def addOneField (field content : Value) : Action (List Stage) Unit :=
  addIf do .ok (Stage.addFields (.dict [(← field.asKey, content)]))

/-- The filter that compares a column with others. -/
def comparison (column operator : Value) (others : List Value) : Except Error Value := do
  let native ← if ← Operator.isToken operator then do
      .ok (Value.text (← Operator.ofValue operator).native)
    else .ok operator
  let key ← native.asKey
  let references ← (column :: others).mapM Column.reference
  .ok (Expression.expr (.dict [(key, .list references)]))

/-- The filter for documents near a place. -/
def nearby (column place maxDistance : Value) : Except Error Value := do
  let e ← Filter.expression .near place
  let key ← column.asKey
  let expression := match e with
    | .dict entries =>
      if maxDistance.isNull then e
      else .dict (Document.putField entries "$maxDistance" maxDistance)
    | e => e
  .ok (.dict [(key, expression)])

/-- Columns given one by one, or all in one list, tuple or dictionary. -/
def spread (takesDict : Bool) (columns : List Value) : Value :=
  match columns with
  | [.list items] => .list items
  | [.tuple items] => .tuple items
  | [.dict entries] => if takesDict then .dict entries else .tuple columns
  | _ => .tuple columns

/-- Alternatives given one by one, or all in one list or dictionary. -/
def alternatives : List Value → Value
  | [.list items] => .list items
  | [.dict entries] => .dict entries
  | operations => .list operations

/-- A join, with the array of a single match replaced by its first element. -/
def addLookup (options : Value) : Action (List Stage) Unit := do
  addIf (Stage.lookup options)
  let entries ← Action.ofExcept (options.entriesFor "get")
  let landing := entries.fieldOrNull "as"
  if (entries.fieldOrNull "single").isTruthy && landing.isTruthy then
    addOneField landing (← Action.ofExcept (Expression.first landing))

/-- The payload of the first limit. -/
def firstLimit (stages : List Stage) : Value :=
  ((stages.find? fun s => s.name == "limit").map Stage.payload).getD .null

/-- The key of a group by parts of a date. -/
def dateKey (column : Value) : List DatePart → Except Error Document
  | [] => .ok []
  | part :: rest => do
    let e ← part.expression column
    .ok ((.text part.name, e) :: (← dateKey column rest))

/-- The name of the column that holds the length of an array. -/
def sizeColumn (column : Value) : Value :=
  .text (column.display ++ "_size")

def apply : Refinement → Action (List Stage) Unit
  | stage s => add s
  | raw v => addIf (Stage.ofValue v)
  | raws v => do addRaws (← Action.ofExcept v.parts)
  | clause parts => addClause parts
  | anyOf operations => addIf (Stage.anyOf (alternatives operations))
  | compare column operator others => do
    addClause [← Action.ofExcept (comparison column operator others)]
  | near column place maxDistance =>
    addIf (Stage.filter <$> nearby column place maxDistance)
  | arraySize column condition => do
    let reference ← Action.ofExcept (Column.reference column)
    add (.addFields (.dict [(sizeColumn column, .single "$size" reference)]))
    addClause (sizeColumn column :: condition)
  | select columns => addIf (Stage.select (spread true columns))
  | deselect columns => addIf (Stage.deselect (spread false columns))
  | project payload => add (.project payload)
  | addFields fields => add (.addFields fields)
  | addField field content => addOneField field content
  | unwind column keepEmpty index => addIf (Stage.unwind column keepEmpty index)
  | lookup options => addLookup options
  | sort column direction => addIf (Stage.sort column direction)
  | sortBy columns => addIf (Stage.sortBy columns)
  | sample size => do
    let stages ← get
    let size := size.orElse (firstLimit stages)
    if size.isTruthy then add (.sample size) else throw .missingLimit
  | skip count => add (.skip count)
  | limit count => add (.limit count)
  | group (.stage name payload) _ => add ⟨name, payload⟩
  | group key accumulators => addIf (Stage.group key accumulators)
  | groupByDate parts column accumulators => do
    let key ← Action.ofExcept (dateKey column parts)
    addIf (Stage.group (.dict key) accumulators)
  | reset => set ([] : List Stage)

end Refinement

end DocumentMapper
