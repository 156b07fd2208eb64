import DocumentMapper.Document.AtPath

/-!
# Embedded lists

A column may hold a list of embedded documents and other values. A document with an `id` is
identified by it, any other value by itself. Associating puts a value at the end of the list,
reassociating puts it in the place of the first element of the same identity, and disassociating
takes the first such element out.
-/

namespace DocumentMapper.EmbeddedList

/-- What identifies an element. -/
def identity (v : Value) : Value :=
  match v with
  | .dict d =>
    let id := Document.fieldOrNull d "id"
    if id.isNull then v else id
  | v => v

/-- The position of the first element with the identity of a value. -/
def positionOf? (v : Value) (items : List Value) : Option Nat :=
  items.findIdx? fun item => (identity item).equal (identity v)

/-- What a column holds, an empty list in the place of nothing. -/
def current (d : Document) (column : String) : Except Error Value := do
  .ok ((← d.columnD column .null).orElse (.list []))

/-- A value with one more element. -/
def append (v : Value) : Value → Except Error Value
  | .list items => .ok (.list (items ++ [v]))
  | other => .error (.misuse (.member other.qualifiedKind "append"))

/-- A value with another element at a position. -/
def replaceAt (v : Value) (i : Nat) : Value → Except Error Value
  | .list items => .ok (.list (items.set i v))
  | .dict d => .ok (.dict (Document.put (.int i) v d))
  | other => .error (.misuse (.itemAssignment other.qualifiedKind))

def associate (d : Document) (column : String) (v : Value) : Except Error Document :=
  if v.isNull then .ok d
  else do d.putColumn column (← append v (← current d column))

def reassociate (d : Document) (column : String) (v : Value) : Except Error Document :=
  if v.isNull then .ok d
  else do
    let items ← current d column
    let changed ← match positionOf? v (← items.parts) with
      | some i => replaceAt v i items
      | none => append v items
    d.putColumn column changed

def disassociate (d : Document) (column : String) (v : Value) : Except Error Document := do
  let items ← d.columnD column .null
  match v, items with
  | .null, _ => .ok d
  | v, .list items =>
    d.putColumn column (.list (match positionOf? v items with
      | some i => items.eraseIdx i
      | none => items))
  | _, _ => .ok d

end DocumentMapper.EmbeddedList
