import DocumentMapper.Model.Finder
import DocumentMapper.Sync.FanOut
import DocumentMapper.Sync.Copies

/-!
# What a rule does

When a record is created, a rule may embed it in the one document that the record names. When it
is changed, the rule looks for every document that holds a copy and puts the present one in its
place; when it is deleted, the copies are taken out or their documents deleted. The documents are
stored and deleted as records of their own, with all that this entails.
-/

namespace DocumentMapper

/-- How a record is saved. -/
structure SaveOptions where
  /-- Data that is merged into the record first, nothing if it counts as absent. -/
  changes : Value
  /-- Whether listeners hear of it. -/
  announce : Bool
  cast : Bool
  /-- Whether columns are cast that have not changed. -/
  force : Bool
  deriving Inhabited

namespace SaveOptions

def standard : SaveOptions := ⟨.null, true, true, false⟩

end SaveOptions

/-- How records are saved and deleted in the course of saving and deleting others. -/
structure Cascade (σ : Type) where
  save : SaveOptions → Action (Record × σ) Unit
  destroy : Action (Record × σ) Unit

namespace Sync

variable {σ : Type} (ctx : Context σ) (below : Cascade σ) (rule : Rule σ) (r : Record)

/-- The logger of rules. -/
def logger : String := "mongolayer.sync.ModelSync"

def schemaOf (r : Record) : Schema :=
  (ctx.model r.model).toSchema

/-- Logs that something could not be done, to a target if it was about one. -/
def report (task : String) (target : Value) (e : Error) : Action σ Unit :=
  let into := ctx.model rule.target
  ctx.report logger .error
    ("Failed to " ++ task ++ " " ++ into.name ++ " embedding " ++ r.model ++ " " ++ r.id.display
      ++ ": " ++ e.message)
    (.ofEntries [("source", .dict r.data), ("target_collection", .text into.collection),
      ("target_id", target), ("columns", .list (rule.columns.map .text))])

/-- An action whose failure is reported before it goes on. -/
def reporting {α : Type} (task : String) (act : Action σ α) : Action σ α :=
  tryCatch act fun e => do
    report ctx rule r task .null e
    throw e

/-- The query for the documents that hold copies of the record. -/
def targetsQuery : Action σ Query := do
  let into := ctx.model rule.target
  let q ← Finder.query ctx into
  let filter := Document.ofEntries (rule.columns.map fun column =>
    (Value.text (column ++ ".id"), r.id))
  let (outcome, q) ← Action.alongside q do
    Query.refine (.anyOf [.dict filter])
    rule.refiner.getD (return)
  Action.ofExcept outcome
  return q

def targets (task : String) : Action σ (List Record) :=
  reporting ctx rule r task do
    let q ← targetsQuery ctx rule r
    return (← q.launch (Query.fetch ctx none)).filterMap Record.ofValue?

/-- What the record gives to be embedded. -/
def payload (task : String) : Action σ Value :=
  reporting ctx rule r task (Action.ofExcept (rule.payload (schemaOf ctx r) r))

/-- Changes the data of a target and saves it. -/
def changeAndSave (change : Document → Except Error Document) (options : SaveOptions) :
    Action (Record × σ) Unit := do
  let (target, _) ← get
  let d ← Action.ofExcept (change target.data)
  Action.first (set { target with data := d })
  below.save options

/-- Treats every target and fails with all failures together if there are any. -/
def run (task : String) (treat : Action (Record × σ) Unit) (targets : List Record) :
    Action σ Unit := do
  let failures ← fanOut rule.policy {
    treat := treat
    report := fun target e => report ctx rule r task target.id e
    aborted := fun target e => .syncAborted r.model r.id rule.target target.id e } targets
  if !failures.isEmpty then throw (.syncFailed task r.model r.id rule.target failures)

/-- Embeds a new record in the document that it names. -/
def onCreate : Action σ Unit := do
  if rule.embedFrom.isEmpty then return
  let task := "embed into"
  let (target, v) ← reporting ctx rule r task do
    let id ← Action.ofExcept (r.data.columnD (rule.embedFrom ++ ".id") .null)
    let target ← Finder.first ctx (ctx.model rule.target) (Finder.on (.text "id") id)
    return (target, ← Action.ofExcept (rule.payload (schemaOf ctx r) r))
  if let some target := target then
    run ctx rule r task
      (changeAndSave below (embed rule.mode rule.columns v) .standard) [target]

/-- Whether a record has a watched column in which it differs from what it was before. -/
def differs (old : Record) : List String → Except Error Bool
  | [] => .ok false
  | column :: rest => do
    let now ← r.data.columnD column .null
    let before ← old.data.columnD column .null
    if now.equal before then differs old rest else .ok true

/-- Whether the copies are out of date. -/
def isDue (old : Option Record) : Except Error Bool :=
  match rule.watched, old with
  | some (c :: cs), some old => differs r old (c :: cs)
  | _, _ => .ok true

/-- Puts the present copy in the place of every old one. -/
def onUpdate (old : Option Record) : Action σ Unit := do
  if ← Action.ofExcept (isDue rule r old) then
    let task := "update"
    let found ← targets ctx rule r task
    let v ← payload ctx rule r task
    run ctx rule r task
      (changeAndSave below (refresh rule.mode rule.columns r.id v)
        { SaveOptions.standard with cast := false }) found

/-- What a save did to a record. -/
inductive Change where
  | created
  | updated (old : Option Record)

/-- What a save did that is told by a word and the record as it was before. -/
def Change.ofWord (word : Value) (old : Option Record) : Change :=
  if word.equal (.text "update") then .updated old else .created

def onSave : Change → Action σ Unit
  | .created => onCreate ctx below rule r
  | .updated old => onUpdate ctx below rule r old

/-- Treats a target of a deleted record. -/
def clean : Action (Record × σ) Unit :=
  match rule.onDelete with
  | .remove => below.destroy
  | _ => changeAndSave below
      (release rule.mode rule.columns r.id (r.embeddedValue (schemaOf ctx r))) .standard

/-- Takes out the copies of a deleted record, or deletes the documents that hold them. -/
def onDestroy : Action σ Unit := do
  if rule.onDelete = .ignore then return
  let task := "clean up"
  run ctx rule r task (clean ctx below rule r) (← targets ctx rule r task)

end Sync

end DocumentMapper
