import DocumentMapper.Document.AtPath
import DocumentMapper.Document.Merge
import DocumentMapper.Model.Schema
import DocumentMapper.Value.Number

/-!
# Records

A record is one document of a model together with the document as it was when last stored. It is
new while it has no identifier of the database; it is changed while the two documents differ.
Other documents embed a copy of a record, or of the part of it that its schema names.
-/

namespace DocumentMapper

structure Record where
  model : String
  data : Document
  /-- The data as they were when the record was made or last stored. -/
  stored : Document
  restored : Bool
  deriving Inhabited

namespace Record

/-- A document whose identifier is an identifier and not the text of one. -/
def identified (d : Document) : Document :=
  match d.field? "_id" with
  | some (.text s) =>
    match ObjectId.ofText? s with
    | some id => d.putField "_id" (.objectId id)
    | none => d
  | _ => d

/-- The record of a document. -/
def ofData (model : String) (data : Document) : Record :=
  let data := identified data
  ⟨model, data, data, false⟩

/-- The record of a value: of a document, of another record's data, or of no data at all. -/
def build (model : String) (v : Value) : Except Error Record :=
  match v with
  | .dict d => .ok (ofData model d)
  | .record _ data _ _ => .ok (ofData model data)
  | v =>
    if v.isTruthy then .error (.misuse (.member v.qualifiedKind "get")) else .ok (ofData model [])

def toValue (r : Record) : Value :=
  .record r.model r.data r.stored r.restored

def ofValue? : Value → Option Record
  | .record model data stored restored => some ⟨model, data, stored, restored⟩
  | _ => none

def id (r : Record) : Value :=
  r.data.fieldOrNull "id"

/-- The identifier that the database gave. -/
def key (r : Record) : Value :=
  r.data.fieldOrNull "_id"

def isNew (r : Record) : Bool :=
  !r.key.isTruthy || r.restored

def isChanged (r : Record) : Bool :=
  !(Value.dict r.data).equal (.dict r.stored)

/-- Whether a column of the record is to be stored. All columns of a new one are. -/
def isColumnChanged (r : Record) (column : String) : Except Error Bool :=
  if r.isNew then .ok true
  else do
    let now ← r.data.columnD column .null
    let before ← r.stored.columnD column .null
    .ok (!now.equal before)

/-! ## Changing the data -/

def set (r : Record) (column : String) (v : Value) : Except Error Record := do
  .ok { r with data := ← r.data.putColumn column v }

def unset (r : Record) (column : String) : Except Error Record := do
  .ok { r with data := ← r.data.eraseColumn column }

def merge (r : Record) (d : Document) : Record :=
  { r with data := r.data.merge d }

/-- The data with an identity under a name, unless it has one of its own there. -/
def keepIdentity (old data : Document) (name : String) : Document :=
  let v := old.fieldOrNull name
  if (data.fieldOrNull name).isTruthy || !v.isTruthy then data else data.putField name v

/-- The record with other data, its identities kept where the data has none. -/
def replaceWith (r : Record) (data : Document) : Record :=
  { r with data := keepIdentity r.data (keepIdentity r.data data "id") "_id" }

/-- The record with a number added to the one in a column. -/
def increment (r : Record) (column : String) (amount : Value) : Except Error Record := do
  r.set column (← (← r.data.columnD column (.int 0)).add amount)

def decrement (r : Record) (column : String) (amount : Value) : Except Error Record := do
  r.set column (← (← r.data.columnD column (.int 0)).sub amount)

/-- Another record with the same data. -/
def clone (r : Record) : Record :=
  ofData r.model r.data

/-! ## Embedded copies -/

/-- The names of columns that must be texts. -/
def columnNames (columns : List Value) : Except Error (List String) :=
  columns.mapM fun v => do .ok (← Path.ofValue v).text

/-- What other documents embed of a record. -/
def embedded (s : Schema) (r : Record) : Except Error Document :=
  if !s.embeddedExcept.isEmpty then r.data.without s.embeddedExcept
  else if s.embeddedUnstamped then do r.data.without (← columnNames s.stamps)
  else if !s.embedded.isEmpty then r.data.only s.embedded
  else .ok r.data

def embeddedValue (s : Schema) (r : Record) : Except Error Value :=
  .dict <$> embedded s r

/-- What a method gives for a record. -/
def callMethod (r : Record) : Method → Except Error Value
  | .only columns => .dict <$> r.data.only columns
  | .nothing => .ok .null
  | .failing reason => .error (.raised reason)
  | .value v => .ok v

/-- What a schema says under the name of one of its settings. -/
def setting? (s : Schema) : String → Option Value
  | "collection" => some (.text s.collection)
  | "primary_id_column" => some s.primaryId
  | "singular_name" => some s.singularName
  | "per_page" => some s.perPage
  | "initial_id" => some (.int s.firstId)
  | "increment_id_by" => some (.int s.idStep)
  | "delete_strategy" => some (.text s.deletion.name)
  | "embedded" => some (.list (s.embedded.map .text))
  | "embed_all_except" => some (.list (s.embeddedExcept.map .text))
  | "embed_all_except_timestamps_and_user_columns" => some (.bool s.embeddedUnstamped)
  | "created_at_column" => some s.createdAt
  | "updated_at_column" => some s.updatedAt
  | "deleted_at_column" => some s.deletedAt
  | "created_by_column" => some s.createdBy
  | "updated_by_column" => some s.updatedBy
  | "deleted_by_column" => some s.deletedBy
  | _ => none

/-- What a record gives under the name of one of its own members. -/
def ownMember? (s : Schema) (r : Record) : String → Option (Except Error Value)
  | "id" => some (.ok r.id)
  | "embedded_data" => some (embeddedValue s r)
  | "is_new_model" => some (.ok (.bool r.isNew))
  | "is_dirty" => some (.ok (.bool r.isChanged))
  | "clone" => some (.ok r.clone.toValue)
  | "__repr__" | "__str__" => some (.ok (.text r.toValue.literal))
  | "get" | "stored" | "set" | "has" | "merge" | "replace_with" | "only" | "except_"
  | "increment" | "decrement" | "associate" | "reassociate" | "disassociate" =>
    some (.error (.misuse (.arguments s.name)))
  | _ => none

/-- What a record gives under a name: its data, a method of its model, or a member of its own. -/
def member? (s : Schema) (r : Record) (name : String) : Option (Except Error Value) :=
  match name with
  | "data" => some (.ok (.dict r.data))
  | "stored_data" => some (.ok (.dict r.stored))
  | "is_restored" => some (.ok (.bool r.restored))
  | name =>
    match s.methods.lookup name with
    | some m => some (callMethod r m)
    | none => (ownMember? s r name).or ((setting? s name).map .ok)

end Record

end DocumentMapper
