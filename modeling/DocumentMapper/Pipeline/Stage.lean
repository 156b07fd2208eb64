import DocumentMapper.Expression

/-!
# Stages of a pipeline

A stage is one named operation with its payload. Its wire form is a dictionary of one entry, the
name with a dollar sign in front, and reading a wire form gives the stage back.
-/

namespace DocumentMapper

structure Stage where
  name : String
  payload : Value
  deriving Inhabited

namespace Stage

/-- The form in which the database takes a stage. -/
def wire (stage : Stage) : Value :=
  .single ("$" ++ stage.name) stage.payload

def toValue (stage : Stage) : Value :=
  .stage stage.name stage.payload

/-- A stage as it is, or the stage of a wire form. -/
def ofValue : Value → Except Error Stage
  | .stage name payload => .ok ⟨name, payload⟩
  | .dict [(.text operator, payload)] =>
    match operator.toList with
    | '$' :: name => .ok ⟨String.ofList name, payload⟩
    | _ => .error (.rawStageOperator (.text operator))
  | .dict [(operator, _)] => .error (.misuse (.member operator.qualifiedKind "startswith"))
  | v => .error (.rawStageShape v)

/-! ## Filters -/

def filter (f : Value) : Stage :=
  ⟨"match", f⟩

/-- One alternative of a disjunction: a pair of column and value, or a filter. -/
def alternative (v : Value) : Except Error Value :=
  match v with
  | .list [column, operand] | .tuple [column, operand] => do
    .ok (.dict [(← column.asKey, operand)])
  | .list _ | .tuple _ => .error (.pairExpected v)
  | .dict entries => .ok (.dict entries)
  | v => .error (.alternativeExpected v.kind)

/-- The disjunction of alternatives; a dictionary is one alternative for each of its entries. -/
def anyOf (alternatives : Value) : Except Error Stage := do
  let alternatives ← match alternatives with
    | .dict entries => .ok (entries.map fun (k, v) => Value.dict [(k, v)])
    | v => do (← v.parts).mapM alternative
  .ok (filter (.single "$or" (.list alternatives)))

/-! ## Projections -/

def project (payload : Value) : Stage :=
  ⟨"project", payload⟩

/-- A mark for each column. -/
def marked (columns : Value) (mark : Int) : Except Error Stage := do
  let keys ← (← columns.parts).mapM Value.asKey
  .ok (project (.dict (Document.ofEntries (keys.map fun k => (k, .int mark)))))

/-- The entries of a projection, texts read as columns. -/
def renamed : Document → Except Error Document
  | [] => .ok []
  | (k, v) :: rest => do
    let v ← if v.isText then Column.reference v else .ok v
    .ok ((k, v) :: (← renamed rest))

/-- Keeps columns, given by name or with the expression that each is to hold. -/
def select : Value → Except Error Stage
  | .dict entries => do .ok (project (.dict (← renamed entries)))
  | columns => marked columns 1

def deselect (columns : Value) : Except Error Stage :=
  marked columns 0

def addFields (fields : Value) : Stage :=
  ⟨"addFields", fields⟩

/-! ## Order, size and groups -/

def direction : Value → Except Error Value
  | .text "asc" => .ok (.int 1)
  | .text "desc" => .ok (.int (-1))
  | v => do .error (.sortDirection (← v.asKey))

def sort (column order : Value) : Except Error Stage := do
  let d ← direction order
  .ok ⟨"sort", .dict [(← column.asKey, d)]⟩

def directions : Document → Except Error Document
  | [] => .ok []
  | (k, v) :: rest => do
    let d ← direction v
    .ok ((k, d) :: (← directions rest))

/-- Sorts by several columns, the first one counting most. -/
def sortBy (columns : Value) : Except Error Stage := do
  .ok ⟨"sort", .dict (← directions (← columns.entriesFor "items"))⟩

def skip (count : Value) : Stage :=
  ⟨"skip", count⟩

def limit (count : Value) : Stage :=
  ⟨"limit", count⟩

def sample (size : Value) : Stage :=
  ⟨"sample", .single "size" size⟩

/-- The key of a group: a column, several columns, or an expression. -/
def groupKey : Value → Except Error Value
  | .text s => Column.reference (.text s)
  | .list columns | .tuple columns => Expression.columns columns
  | v => .ok v

/-- Groups by a key; the accumulators are written over the entry that holds the key. -/
def group (key accumulators : Value) : Except Error Stage := do
  let key ← groupKey key
  let start : Document := [(.text "_id", key)]
  if accumulators.isTruthy then
    match accumulators with
    | .dict entries => .ok ⟨"group", .dict (start.update entries)⟩
    | v => .error (.misuse (.mapping v.qualifiedKind))
  else .ok ⟨"group", .dict start⟩

/-! ## Arrays and joins -/

/-- One document for each element of an array. -/
def unwind (column keepEmpty index : Value) : Except Error Stage := do
  let path ← Column.reference column
  let entries := [("path", path), ("preserveNullAndEmptyArrays", keepEmpty)]
  .ok ⟨"unwind", .ofEntries
    (entries ++ if index.isTruthy then [("includeArrayIndex", index)] else [])⟩

/-- Entries of a name and a value that passes a test. -/
def entryIf (test : Value → Bool) (name : String) (v : Value) : List (String × Value) :=
  if test v then [(name, v)] else []

/-- Joins another collection; the fields may be left out when a pipeline does their work. -/
def lookup (options : Value) : Except Error Stage := do
  let source ← options.field "from"
  let entries ← options.entriesFor "get"
  let landing ← options.field "as"
  let get := Document.fieldOrNull entries
  .ok ⟨"lookup", .ofEntries (("from", source) ::
    entryIf (!·.isNull) "localField" (get "localField") ++
    entryIf (!·.isNull) "foreignField" (get "foreignField") ++ ("as", landing) ::
    entryIf Value.isTruthy "let" (get "let") ++
    entryIf Value.isTruthy "pipeline" (get "pipeline"))⟩

end Stage

/-- The wire forms of the stages of a list. -/
def Stage.wires (v : Value) : Except Error (List Value) := do
  (← v.parts).mapM fun
    | .stage name payload => .ok (Stage.wire ⟨name, payload⟩)
    | v => .error (.misuse (.member v.qualifiedKind "parse"))

end DocumentMapper
