import DocumentMapper.Call.Model
import DocumentMapper.Model.EmbeddedList

/-!
# Calls of records

What a record does under the names that scripts use. The calls of its model can be made on the
record as well.
-/

namespace DocumentMapper.Record

open Parameters

variable {σ α : Type} (w : Workspace σ α)

/-- A call that changes the record and gives it back. -/
def changing (change : Record → Except Error Record) : Action (Record × σ) (Reply σ) := do
  let (r, _) ← get
  let r' ← Action.ofExcept (change r)
  Action.first (modify fun _ => r')
  return .itself

def giving (f : Record → Except Error Value) : Action (Record × σ) (Reply σ) := do
  let (r, _) ← get
  return .value (← Action.ofExcept (f r))

/-- A call that changes the data of the record. -/
def changingData (change : Document → Except Error Document) : Action (Record × σ) (Reply σ) :=
  changing fun r => do .ok { r with data := ← change r.data }

def unsetAll : List Value → Action (Record × σ) (Reply σ)
  | [] => return .itself
  | c :: rest => do
    let _ ← changing fun r => do r.unset (← Path.ofValue c).text
    unsetAll rest

/-- What a list embeds of a value: of a record its embedded part or another member. -/
def embeddable (ctx : Context σ) (v : Value) (member : Value) : Except Error Value :=
  match ofValue? v with
  | none => .ok v
  | some r =>
    let s := (ctx.model r.model).toSchema
    match member with
    | .text name =>
      if name.isEmpty then r.embeddedValue s
      else (r.member? s name).getD (.error (.misuse (.member r.model name)))
    | _ => r.embeddedValue s

/-- A call that puts a value into an embedded list. -/
def listing (f : Document → String → Value → Except Error Document) : Call? σ α Record :=
  some do
    let c ← column "column"
    let v ← value "value"
    let member ← valueD "embed_with" .null
    return changingData fun d => do f d c (← embeddable w.context v member)

/-- A function of a column and a number, one if none is given. -/
def counting (f : Record → String → Value → Except Error Record) : Call? σ α Record :=
  some do
    let c ← column "column"
    let n ← valueD "value" (.int 1)
    return changing fun r => f r c n

/-- Reads a column of a document of the record. -/
def reading (part : Record → Document) : Call? σ α Record :=
  some do
    let c ← column "column"
    let fallback ← valueD "default" .null
    return giving fun r => (part r).columnD c fallback

def saving (o : SaveOptions) : Action (Record × σ) (Reply σ) := do
  w.cascade.save o
  return .itself

def call? : String → Call? σ α Record
  | "get" => reading Record.data
  | "stored" => reading Record.stored
  | "has" => some do
    let c ← column "column"
    return giving fun r => Value.bool <$> r.data.hasColumn c
  | "set" => some do
    let c ← column "column"
    let v ← value "value"
    return changing fun r => r.set c v
  | "unset" => some do return unsetAll (← otherValues)
  | "merge" => some do
    let d ← (← required "data").asEntries "items"
    return changing fun r => .ok (r.merge d)
  | "replace_with" => some do
    let d ← (← required "data").asEntries "get"
    return changing fun r => .ok (r.replaceWith d)
  | "only" => some do
    let cs ← (← required "columns").asColumnList
    return giving fun r => Value.dict <$> r.data.only cs
  | "except_" => some do
    let cs ← (← required "columns").asColumnList
    return giving fun r => Value.dict <$> r.data.without cs
  | "increment" => counting Record.increment
  | "decrement" => counting Record.decrement
  | "is_new_model" => some (return giving fun r => .ok (.bool r.isNew))
  | "is_dirty" => some do
    let c ← nullable "column"
    match ← c.asValue with
    | .null => return giving fun r => .ok (.bool r.isChanged)
    | _ =>
      let c ← c.asColumn
      return giving fun r => Value.bool <$> r.isColumnChanged c
  | "clone" => some (return giving fun r => .ok r.clone.toValue)
  | "associate" => listing w EmbeddedList.associate
  | "reassociate" => listing w EmbeddedList.reassociate
  | "disassociate" => some do
    let c ← column "column"
    let v ← value "value"
    return changingData fun d => do
      EmbeddedList.disassociate d c (← embeddable w.context v .null)
  | "save" => some do
    let changes ← valueD "merged_data" .null
    let announce ← flagD "trigger_events" true
    let cast ← flagD "cast" true
    return saving w ⟨changes, announce, cast, ← flagD "force_update" false⟩
  | "silent_saving" => some do
    let changes ← valueD "merged_data" .null
    return saving w ⟨changes, false, ← flagD "cast" true, false⟩
  | "destroy" => some (return do
    w.cascade.destroy
    return .nothing)
  | "start_syncing" => some do
    let mode ← value "mode"
    let old ← (← nullable "old_record").asRecord?
    return do
      let (r, _) ← get
      Lifecycle.syncSaved w.context w.cascade (w.context.model r.model) (.ofWord mode old)
      return .nothing
  | "sync_destruction" => some (return do
    let (r, _) ← get
    Lifecycle.syncDestroyed w.context w.cascade (w.context.model r.model)
    return .nothing)
  | _ => none

/-- A call of a method of the record's own model; a plain value cannot be called. -/
def methodCall (m : Method) : Parameters (Argument σ α) (Action (Record × σ) (Reply σ)) :=
  match m with
  | .value v => throw (.misuse (.call v.qualifiedKind))
  | m => return giving fun r => r.callMethod m

/-- The call of a name on a record: a method of its model, a call of all records, or one of the
model itself. -/
def named? (r : Record) (name : String) : Call? σ α Record :=
  let m := w.context.model r.model
  ((m.methods.lookup name).map methodCall).or ((call? w name).or
    ((Model.named? w m name).map fun parameters => do return Action.second (← parameters)))

end DocumentMapper.Record
