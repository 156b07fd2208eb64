import DocumentMapper.Column
import DocumentMapper.Pattern.Compile
import DocumentMapper.Value.Display

/-!
# Expressions

Builders of the operator dictionaries that stages are made of: accumulators over a group, parts of
dates, conditions on a column and computed values. A builder that may be bound to a column puts
its expression under the reference to that column when one is given.
-/

namespace DocumentMapper.Expression

/-- An operator applied to an operand. -/
def apply (operator : String) (operand : Value) : Value :=
  .single operator operand

/-- An operator applied to a column. -/
def onColumn (operator : String) (column : Value) : Except Error Value := do
  .ok (apply operator (← Column.reference column))

/-- An operator applied to several columns. -/
def onColumns (operator : String) (columns : List Value) : Except Error Value := do
  .ok (apply operator (.list (← columns.mapM Column.reference)))

/-- The expression under the reference to a column, or by itself if no column is given. -/
def bound (column : Value) (expression : Value) : Except Error Value :=
  if column.isTruthy then do
    .ok (.dict [(← Column.reference column, expression)])
  else .ok expression

/-! ## Accumulators -/

def count (column : Value) : Except Error Value :=
  bound column (apply "$sum" (.int 1))

def sum (column base : Value) : Except Error Value := do
  bound base (← onColumn "$sum" column)

def avg : Value → Except Error Value := onColumn "$avg"
def min : Value → Except Error Value := onColumn "$min"
def max : Value → Except Error Value := onColumn "$max"
def first : Value → Except Error Value := onColumn "$first"
def last : Value → Except Error Value := onColumn "$last"
def addToSet : Value → Except Error Value := onColumn "$addToSet"

/-- Gathers a column, or a computed document, into an array. -/
def push : Value → Except Error Value
  | .text s => onColumn "$push" (.text s)
  | v => .ok (apply "$push" v)

/-! ## Parts of dates -/

def year : Value → Except Error Value := onColumn "$year"
def month : Value → Except Error Value := onColumn "$month"
def dayOfMonth : Value → Except Error Value := onColumn "$dayOfMonth"
def dayOfWeek : Value → Except Error Value := onColumn "$dayOfWeek"
def week : Value → Except Error Value := onColumn "$week"

/-- The first value of an expression over a group. -/
def firstOf (part : Value → Except Error Value) (column : Value) : Except Error Value := do
  .ok (apply "$first" (← part column))

def lastOf (part : Value → Except Error Value) (column : Value) : Except Error Value := do
  .ok (apply "$last" (← part column))

/-- Each column with a reference to itself, a key for groups over several columns. -/
def columns (names : List Value) : Except Error Value := do
  .ok (.dict (Document.ofEntries (← Column.references names)))

/-! ## Conditions -/

def comparison (operator : String) (v column : Value) : Except Error Value :=
  bound column (apply operator v)

def eq (values : List Value) : Value :=
  apply "$eq" (.list values)

/-- A pattern as it is, and anything else as the source of a pattern that ignores case. -/
def searchPattern : Value → Except Error Value
  | .pattern p => .ok (.pattern p)
  | v => do .ok (.pattern (← Pattern.compile v.display))

def like (v column : Value) : Except Error Value := do
  bound column (apply "$regex" (← searchPattern v))

def notLike (v column : Value) : Except Error Value := do
  bound column (apply "$not" (apply "$regex" (← searchPattern v)))

/-- Both bounds, each included. -/
def bounds (low high : Value) : Value :=
  Value.ofEntries [("$gte", low), ("$lte", high)]

def between (low high column : Value) : Except Error Value :=
  bound column (bounds low high)

def notBetween (low high column : Value) : Except Error Value :=
  bound column (apply "$not" (bounds low high))

/-! ## Computed values -/

def concat (parts : List Value) : Value :=
  apply "$concat" (.list parts)

/-- Columns in a row with a separator after each of them. -/
def concatWith (separator : Value) (names : List Value) : Except Error Value := do
  let references ← names.mapM Column.reference
  .ok (concat (references.flatMap fun r => [r, separator]))

def cond (condition ifTrue ifFalse column : Value) : Except Error Value :=
  bound column
    (apply "$cond" (.ofEntries [("if", condition), ("then", ifTrue), ("else", ifFalse)]))

def expr (expression : Value) : Value :=
  apply "$expr" expression

end DocumentMapper.Expression
