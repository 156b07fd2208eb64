import DocumentMapper.Model.Casting
import DocumentMapper.Sync.Transition

/-!
# Saving and deleting records

A record that has no identifier of the database yet is inserted when it is saved, any other one
is replaced if its data differ from what was last stored. Listeners hear of it before and after,
and then the rules of the model bring embedded copies up to date, which saves other records in
turn. Such a cascade is given a depth; rules without cycles never reach it.
-/

namespace DocumentMapper

namespace Lifecycle

variable {σ : Type} (ctx : Context σ)

/-- An action on a record, with the state it works on. -/
abbrev Step (σ α : Type) := Action (Record × σ) α

def record : Step σ Record := do
  return (← get).1

def outside {α : Type} (act : Action σ α) : Step σ α :=
  Action.second act

def modifyData (f : Document → Document) : Step σ Unit :=
  modify fun (r, s) => ({ r with data := f r.data }, s)

/-- The logger of records. -/
def logger : String := "mongolayer.Model"

/-- Tells the listeners of a model that something happens to a record. -/
def announce (m : Model σ) (event : Event) (old : Option Record) : Step σ Unit :=
  ctx.tell m.registries event fun l => l.onRecord old

/-- Announces events if that is wanted. -/
def announceAll (wanted : Bool) (m : Model σ) (events : List Event) (old : Option Record) :
    Step σ Unit :=
  if wanted then events.forM fun event => announce ctx m event old else return

/-- Writes the time into a column of that purpose, if the model has one. -/
def stamp (column : Value) (time : Calendar.Moment) : Step σ Unit :=
  if column.isTruthy then modifyData (·.put column (.moment time)) else return

/-- The filter for a record by the identifier that the database gave. -/
def keyFilter (d : Document) : Except Error Document := do
  .ok [(.text "_id", ← (Value.dict d).field "_id")]

/-- Stores the data of a record in the place of what was stored. -/
def replace (m : Model σ) : Step σ Unit := do
  let r ← record
  let filter ← Action.ofExcept (keyFilter r.data)
  let _ ← outside (ctx.request m.collection (.replaceOne filter r.data false))

/-- The entries that a model gives to its new records. -/
def defaultEntries (r : Record) : List (String × Default) → Except Error Document
  | [] => .ok []
  | (name, .value v) :: rest => do .ok ((.text name, v) :: (← defaultEntries r rest))
  | (name, .computed f) :: rest => do
    let v ← f r
    .ok ((.text name, v) :: (← defaultEntries r rest))

/-- Gives a new record what the model says and the record does not have. -/
def applyDefaults (m : Model σ) : Step σ Unit := do
  let defaults ← Action.ofExcept (defaultEntries (← record) m.defaults)
  if !defaults.isEmpty then modifyData fun d => defaults.merge d

/-- Gives a record a number unless it has one. -/
def assignId (m : Model σ) : Step σ Unit := do
  if !(← record).id.isTruthy then
    let id ← outside (Finder.nextId ctx m)
    modifyData (·.putField "id" id)

/-- Replaces the stored document, or does nothing if the record has not changed. -/
def storeChanged (m : Model σ) (o : SaveOptions) : Step σ (Option Sync.Change) := do
  if o.cast then Casting.castData ctx o.force
  let r ← record
  if !r.isChanged then return none
  let old := Record.ofData r.model r.stored
  if m.updatedAt.isTruthy then stamp m.updatedAt (← outside ctx.now)
  announceAll ctx o.announce m [.updating, .saving] (some old)
  replace ctx m
  announceAll ctx o.announce m [.updated, .saved] (some old)
  return some (.updated (some old))

/-- Inserts the document of a new record. -/
def storeNew (m : Model σ) (o : SaveOptions) : Step σ (Option Sync.Change) := do
  applyDefaults m
  assignId ctx m
  let now ← outside ctx.now
  stamp m.createdAt now
  stamp m.updatedAt now
  if o.cast then Casting.castData ctx false
  announceAll ctx o.announce m [.creating, .saving] none
  let key ← outside (ctx.request m.collection (.insertOne (← record).data))
  modify fun (r, s) => ({ r with data := r.data.putField "_id" key, restored := false }, s)
  announceAll ctx o.announce m [.created, .saved] none
  return some .created

/-- Stores a record and tells what was done. -/
def store (m : Model σ) (o : SaveOptions) : Step σ (Option Sync.Change) := do
  if o.changes.isTruthy then
    let changes ← Action.ofExcept (o.changes.entriesFor "items")
    modifyData (·.merge changes)
  if (← record).isNew then storeNew ctx m o else storeChanged ctx m o

/-- An action whose failure is logged before it goes on. -/
def logged {α : Type} (m : Model σ) (task : String) (act : Step σ α) : Step σ α :=
  tryCatch act fun e => do
    outside (ctx.log ⟨logger, .error, "Error in " ++ m.name ++ "." ++ task ++ "(): " ++ e.message⟩)
    throw e

/-- Brings the copies of a record up to date, rule after rule. -/
def syncSaved (below : Cascade σ) (m : Model σ) (change : Sync.Change) : Step σ Unit := do
  let r ← record
  m.rules.forM fun rule => outside (Sync.onSave ctx below rule r change)

/-- Saves a record and brings its copies up to date. -/
def save (below : Cascade σ) (o : SaveOptions) : Step σ Unit := do
  let m := ctx.model (← record).model
  outside (ctx.requireBound m.toSchema)
  match ← logged ctx m "save" (store ctx m o) with
  | none => return
  | some change =>
    modify fun (r, s) => ({ r with stored := r.data }, s)
    syncSaved ctx below m change

/-- Cleans up the copies of a deleted record, rule after rule. -/
def syncDestroyed (below : Cascade σ) (m : Model σ) : Step σ Unit := do
  let r ← record
  m.rules.forM fun rule => outside (Sync.onDestroy ctx below rule r)

/-- Puts a copy of a record into the trash of its collection. -/
def discard (m : Model σ) : Step σ Unit := do
  let r ← record
  let time ← outside ctx.now
  let _ ← outside (ctx.request m.trashCollection
    (.insertOne [(.text "document", .dict r.data), (.text "createdAt", .moment time)]))

/-- Takes the document of a record out of its collection, or stores its mark. -/
def remove (m : Model σ) : Step σ Unit := do
  if m.deletion = .soft then replace ctx m
  else
    let filter ← Action.ofExcept (keyFilter (← record).data)
    let _ ← outside (ctx.request m.collection (.deleteOne filter))

def withdraw (m : Model σ) : Step σ Unit := do
  if m.deletion = .trash then discard ctx m
  announce ctx m .deleting none
  remove ctx m
  announce ctx m .deleted none

/-- Deletes a record and cleans up its copies. A record that was never stored is left alone. -/
def destroy (below : Cascade σ) : Step σ Unit := do
  let r ← record
  if r.key.isTruthy then
    let m := ctx.model r.model
    outside (ctx.requireBound m.toSchema)
    if m.deletedAt.isTruthy then stamp m.deletedAt (← outside ctx.now)
    logged ctx m "destroy" (withdraw ctx m)
    syncDestroyed ctx below m

/-- Saving and deleting with rules that reach others through as many records as the depth says. -/
def cascade : Nat → Cascade σ
  | 0 => ⟨fun _ => throw .cascadeTooDeep, throw .cascadeTooDeep⟩
  | depth + 1 => ⟨save ctx (cascade depth), destroy ctx (cascade depth)⟩

end Lifecycle

end DocumentMapper
