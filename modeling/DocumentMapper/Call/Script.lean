import DocumentMapper.Call.Joinable
import DocumentMapper.Call.Record
import DocumentMapper.Call.Registry
import DocumentMapper.Call.Rule

/-!
# Calls and attributes of objects

Calling an object by the name of what it does, and reading its attributes. A call that fails
leaves the object as it was when it failed.
-/

namespace DocumentMapper.Object

variable {σ α : Type} (w : Workspace σ α)

/-- The kind of an object as messages name it. -/
def kind : Object σ → String
  | value v => v.qualifiedKind
  | query q => q.kind
  | joinable _ => "Joinable"
  | rule _ => "ModelSync"
  | registry _ => "ModelEvents"

/-- An attribute of a query. -/
def queryAttribute? (q : Query) : String → Option (Object σ)
  | "collection" => some (.value (.text q.collection))
  | "stages" => some (.value (.list (q.stages.map Stage.toValue)))
  | "executor" => some (.value .null)
  | "events" =>
    match q.source with
    | .attached (some id) => some (.registry id)
    | _ => some (.value .null)
  | "model" =>
    match q.source with
    | .model name => some (.value (.model name))
    | _ => none
  | _ => none

def ruleAttribute? (r : Sync.Rule σ) : String → Option Value
  | "model" => some (.model r.target)
  | "columns" => some (.list (r.columns.map .text))
  | "embed_method" => some (.text r.member)
  | "when_delete" => some (.text r.onDelete.name)
  | "sync_mode" => some (.text r.mode.name)
  | "embed_on_create" => some (.text r.embedFrom)
  | "update_when_change_columns" =>
    some ((r.watched.map fun cs => .list (cs.map .text)).getD .null)
  | "failure_policy" => some (.text r.policy.name)
  | _ => none

/-- An attribute of a joinable, else of the query for the joined records. -/
def joinableAttribute? (j : Joinable) : String → Option (Object σ)
  | "lookup_data" => some (.value (.dict j.options))
  | "model" => some (.value (.model j.schema.name))
  | "query" => some (.query j.query)
  | name => queryAttribute? j.query name

/-- What an object holds under a name, if it holds anything there. -/
def attribute? (o : Object σ) (name : String) : Action σ (Option (Except Error (Object σ))) :=
  match o with
  | .value v => return (Record.ofValue? v).bind fun r =>
    (r.member? (w.context.model r.model).toSchema name).map (Except.map .value)
  | .query q => return (queryAttribute? q name).map .ok
  | .joinable j => return (joinableAttribute? j name).map .ok
  | .rule r => return (ruleAttribute? r name).map fun v => .ok (.value v)
  | .registry id => do
    let r ← w.registry id
    return if name == "collection" then some (.ok (.value r.collection)) else none

/-- Reads an attribute of an object. -/
def getAttribute (o : Object σ) (name : String) : Action σ (Object σ) := do
  match ← o.attribute? w name with
  | some found => Action.ofExcept found
  | none => throw (.misuse (.member o.kind name))

/-- The error of a call of something that cannot be called or is not there. -/
def noCall (o : Object σ) (name : String) : Action σ Error := do
  match ← o.attribute? w name with
  | some (.ok held) => return .misuse (.call held.kind)
  | some (.error e) => return e
  | none => return .misuse (.member o.kind name)

/-- Makes a call of an object of one kind; gives what comes of it and the object as it is left. -/
def perform {τ : Type} (own : τ) (wrap : τ → Object σ) (args : Arguments (Argument σ α))
    (call : Call? σ α τ) : Action σ (Except Error (Reply σ) × Object σ) :=
  match call with
  | none => do
    let e ← (wrap own).noCall w args.callee
    return (.error e, wrap own)
  | some parameters =>
    match parameters.read args with
    | .error e => return (.error e, wrap own)
    | .ok act => do
      let (outcome, own) ← Action.alongside own act
      return (outcome, wrap own)

/-- Makes a call of an object. -/
def call (o : Object σ) (args : Arguments (Argument σ α)) :
    Action σ (Except Error (Reply σ) × Object σ) :=
  let name := args.callee
  match o with
  | .query q => perform w q .query args (Query.named? w q name)
  | .joinable j => perform w j .joinable args (Joinable.named? w j name)
  | .rule r => perform w r .rule args (Sync.Rule.named? w name)
  | .registry id => perform w id .registry args (Registry.named? w id name)
  | .value v =>
    match Record.ofValue? v with
    | some r => perform w r (fun r => .value r.toValue) args (Record.named? w r name)
    | none => return (.error (.misuse (.member o.kind name)), o)

/-- Makes a call of a model. -/
def callModel (model : String) (args : Arguments (Argument σ α)) : Action σ (Reply σ) :=
  match Model.named? w (w.context.model model) args.callee with
  | none => throw (.misuse (.modelMember model args.callee))
  | some parameters => do (← Action.ofExcept (parameters.read args))

/-- Writes an attribute of a record. -/
def setAttribute (o : Object σ) (name : String) (v : Value) : Object σ :=
  match o with
  | .value (.record model data stored restored) =>
    match name with
    | "data" => .value (.record model v.entries stored restored)
    | "stored_data" => .value (.record model data v.entries restored)
    | "is_restored" => .value (.record model data stored v.isTruthy)
    | _ => o
  | o => o

/-- The text that stands for an object. -/
def text : Object σ → String
  | value v => v.literal
  | query q => q.text
  | joinable j => j.text
  | rule r => r.text
  | registry _ => "<ModelEvents>"

end DocumentMapper.Object
