import DocumentMapper.Model.Record
import DocumentMapper.Query.Basic

/-!
# Rules for embedded copies

A rule says which columns of a target model embed records of another model, and what becomes of
those copies when such a record is created, changed or deleted. A column holds one copy, or, in a
rule for many, a list of copies; a column with a point in it, in a rule for many, names a list and
the field of each element that holds a copy.
-/

namespace DocumentMapper.Sync

/-- What becomes of the copies of a deleted record. -/
inductive OnDelete where
  | unset
  /-- The documents that hold copies are deleted too. -/
  | remove
  | ignore
  deriving DecidableEq, Repr, Inhabited

def OnDelete.name : OnDelete → String
  | unset => "unset"
  | remove => "remove"
  | ignore => "ignore"

inductive Mode where
  | single
  | many
  deriving DecidableEq, Repr, Inhabited

def Mode.name : Mode → String
  | single => "single"
  | many => "many"

/-- Whether the other targets are treated after one has failed. -/
inductive Policy where
  | continue
  | abort
  deriving DecidableEq, Repr, Inhabited

def Policy.name : Policy → String
  | «continue» => "continue"
  | abort => "abort"

structure Rule (σ : Type) where
  /-- The model whose documents hold the copies. -/
  target : String
  columns : List String
  /-- The member of a record that gives its copy. -/
  member : String
  onDelete : OnDelete
  mode : Mode
  /-- The column of a new record that names the document to embed it in; none if empty. -/
  embedFrom : String
  /-- The columns whose change makes the copies out of date; any change if there are none. -/
  watched : Option (List String)
  /-- Narrows the query for the documents that hold copies. -/
  refiner : Option (Action (Query × σ) Unit)
  policy : Policy

namespace Rule

variable {σ : Type}

/-- The rule for some columns of a target; there must be one at least. -/
def ofColumns (target : String) (columns : List String) (member : String) :
    Except Error (Rule σ) :=
  if columns.isEmpty then .error (.noColumns target)
  else .ok ⟨target, columns, member, .unset, .single, "", none, none, .continue⟩

/-- What a record gives to be embedded: its member of the rule's name, or its embedded part if it
has no such member or one that is null. -/
def payload (rule : Rule σ) (s : Schema) (r : Record) : Except Error Value := do
  match r.member? s rule.member with
  | none => r.embeddedValue s
  | some v =>
    let v ← v
    if v.isNull then r.embeddedValue s else .ok v

end Rule

end DocumentMapper.Sync
