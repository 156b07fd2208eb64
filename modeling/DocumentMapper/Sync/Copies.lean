import DocumentMapper.Model.EmbeddedList
import DocumentMapper.Sync.Rule

/-!
# Embedded copies

How the columns of a rule change in a document that may hold copies of a record. A copy is a
dictionary with the identity of the record. When the record has changed its copies give way to
what the record gives to be embedded; when it is deleted they are taken out. A document that holds
no copy in a column keeps what it has there.
-/

namespace DocumentMapper.Sync

/-- The identity that a copy carries, null for anything that is no copy. -/
def copyId : Value → Value
  | .dict d => Document.fieldOrNull d "id"
  | _ => .null

/-- Whether a value carries an identity. -/
def isCopyOf (id v : Value) : Bool :=
  (copyId v).equal id

/-- Whether a column holds a copy, in a rule for many also as an element of a list. -/
def references (mode : Mode) (d : Document) (column : String) (id : Value) :
    Except Error Bool := do
  match mode, ← d.columnD column .null with
  | .many, .list items => .ok (items.any (isCopyOf id))
  | _, v => .ok (isCopyOf id v)

/-- A column with a point in it as a list and the field of its elements. -/
def nested? (column : String) : Option (String × String) :=
  match Path.ofText column with
  | top :: field :: rest => some (top, Path.text (field :: rest))
  | _ => none

/-- Whether an element holds a copy in a field. -/
def holdsIn (field : String) (id : Value) : Value → Bool
  | .dict d => isCopyOf id (Document.fieldOrNull d field)
  | _ => false

/-- What an element becomes when its field holds a copy. -/
def changeIn (change : Document → Document) (field : String) (id item : Value) : Value :=
  match item with
  | .dict d => if holdsIn field id item then .dict (change d) else item
  | other => other

/-- The list under a key, an empty one in the place of nothing. -/
def elements? (d : Document) (top : String) : Except Error (Option (List Value)) := do
  match ← EmbeddedList.current d top with
  | .list items => .ok (some items)
  | _ => .ok none

/-- Puts a payload in the place of the copies in a field of the elements of a list. -/
def replaceNested (d : Document) (top field : String) (id payload : Value) :
    Except Error Document := do
  match ← elements? d top with
  | some items =>
    if items.any (holdsIn field id) then
      d.putColumn top (.list (items.map (changeIn (·.putField field payload) field id)))
    else .ok d
  | none => .ok d

/-- Takes the copies out of a field of the elements of a list. -/
def unsetNested (d : Document) (top field : String) (id : Value) : Except Error Document := do
  match ← elements? d top with
  | some items => d.putColumn top (.list (items.map (changeIn (·.eraseField field) field id)))
  | none => .ok d

/-- Puts a payload in the place of the copies in a column. -/
def refreshColumn (mode : Mode) (id payload : Value) (d : Document) (column : String) :
    Except Error Document := do
  match mode, nested? column with
  | .many, some (top, field) => replaceNested d top field id payload
  | mode, _ =>
    if ← references mode d column id then
      match mode with
      | .single => d.putColumn column payload
      | .many => EmbeddedList.reassociate d column payload
    else .ok d

/-- Puts a payload in the place of the copies in every column. -/
def refresh (mode : Mode) (columns : List String) (id payload : Value) (d : Document) :
    Except Error Document :=
  columns.foldlM (refreshColumn mode id payload) d

/-- Takes the copies out of a column. `embedded` is what the record embeds. -/
def releaseColumn (mode : Mode) (id : Value) (embedded : Except Error Value) (d : Document)
    (column : String) : Except Error Document := do
  match mode, nested? column with
  | .many, some (top, field) => unsetNested d top field id
  | mode, _ =>
    if ← references mode d column id then
      match mode with
      | .single => d.eraseColumn column
      | .many => do EmbeddedList.disassociate d column (← embedded)
    else .ok d

/-- Takes the copies out of every column. -/
def release (mode : Mode) (columns : List String) (id : Value) (embedded : Except Error Value)
    (d : Document) : Except Error Document :=
  columns.foldlM (releaseColumn mode id embedded) d

/-- Embeds a payload in a column, in a rule for many as a new element. -/
def embedColumn (mode : Mode) (payload : Value) (d : Document) (column : String) :
    Except Error Document :=
  match mode with
  | .single => d.putColumn column payload
  | .many => EmbeddedList.associate d column payload

/-- Embeds a payload in every column. -/
def embed (mode : Mode) (columns : List String) (payload : Value) (d : Document) :
    Except Error Document :=
  columns.foldlM (embedColumn mode payload) d

end DocumentMapper.Sync
