import DocumentMapper.Call.Arguments
import DocumentMapper.Model.Store
import DocumentMapper.Query.Joining

/-!
# Objects of a script

A script holds values, queries, joinables, rules and registries, and calls them by name. A call
gives back the object that was called, or another one. Besides objects a call may be given
functions of the caller's: transforms, visits of pages, refiners of queries and listeners.
-/

namespace DocumentMapper

inductive Object (σ : Type) where
  | value (v : Value)
  | query (q : Query)
  | joinable (j : Joinable)
  | rule (r : Sync.Rule σ)
  | registry (id : RegistryId)

/-- What a call gives back. -/
inductive Reply (σ : Type) where
  | itself
  | object (o : Object σ)

namespace Reply

variable {σ : Type}

def value (v : Value) : Reply σ :=
  .object (.value v)

def nothing : Reply σ :=
  value .null

def record (r : Record) : Reply σ :=
  value r.toValue

def record? (r : Option Record) : Reply σ :=
  value ((r.map Record.toValue).getD .null)

def records (rs : List Record) : Reply σ :=
  value (.list (rs.map Record.toValue))

end Reply

inductive Argument (σ α : Type) where
  | object (o : Object σ)
  | transform (t : Transform)
  | visit (v : Query.Visit σ)
  | refiner (f : Query.Run σ Unit)
  | listener (l : α)

/-- What objects work with: a context, the registries and what their listeners do, and how records
are saved and deleted. -/
structure Workspace (σ α : Type) where
  context : Context σ
  cascade : Cascade σ
  registry : RegistryId → Action σ (Registry α)
  setRegistry : RegistryId → Registry α → Action σ Unit
  listener : α → Listener σ

/-- A call of an object of type `τ`, if there is one of the name: what its arguments make it do. -/
abbrev Call? (σ α τ : Type) : Type :=
  Option (Parameters (Argument σ α) (Action (τ × σ) (Reply σ)))

namespace Argument

variable {σ α : Type}

/-- An object that is no value, used as one. -/
def noValue {β : Type} : Except Error β :=
  .error (.misuse (.call "object"))

def asValue : Argument σ α → Except Error Value
  | .object (.value v) => .ok v
  | _ => noValue

/-- A text that names a column. -/
def asColumn (a : Argument σ α) : Except Error String := do
  match ← a.asValue with
  | .text s => .ok s
  | v => .error (.misuse (.member v.qualifiedKind "split"))

/-- The columns in a list. -/
def asColumnList (a : Argument σ α) : Except Error (List String) := do
  Record.columnNames (← (← a.asValue).parts)

/-- One column, or several in a list. -/
def asColumns (a : Argument σ α) : Except Error (List String) := do
  match ← a.asValue with
  | .text s => .ok [s]
  | _ => a.asColumnList

/-- One column, several in a list, or none for what counts as absent. -/
def asColumnsIfGiven (a : Argument σ α) : Except Error (List String) := do
  let v ← a.asValue
  if v.isTruthy || v.isText then a.asColumns else .ok []

/-- A dictionary that is asked for one of its operations. -/
def asEntries (a : Argument σ α) (operation : String) : Except Error Document := do
  (← a.asValue).entriesFor operation

def asRecord (a : Argument σ α) : Except Error Record := do
  let v ← a.asValue
  match Record.ofValue? v with
  | some r => .ok r
  | none => .error (.misuse (.member v.qualifiedKind "id"))

def asRecord? (a : Argument σ α) : Except Error (Option Record) := do
  Record.ofValue? <$> a.asValue

/-- A transform: a function, a model that makes records, or nothing. -/
def asTransform? : Argument σ α → Except Error (Option Transform)
  | .transform t => .ok (some t)
  | .object (.value .null) => .ok none
  | .object (.value (.model name)) => .ok (some fun v => Record.toValue <$> Record.build name v)
  | .object (.value v) => .ok (some fun _ => .error (.misuse (.call v.qualifiedKind)))
  | _ => noValue

def asVisit : Argument σ α → Except Error (Query.Visit σ)
  | .visit f => .ok f
  | .object (.value v) => .ok fun _ _ => throw (.misuse (.call v.qualifiedKind))
  | _ => noValue

def asListener : Argument σ α → Except Error α
  | .listener l => .ok l
  | _ => noValue

/-- A joinable, or the name of one. -/
def asJoin : Argument σ α → Except Error JoinRef
  | .object (.joinable j) => .ok (.given j)
  | .object (.value (.text name)) => .ok (.named name)
  | .object (.value v) => .error (.misuse (.member v.qualifiedKind "clone"))
  | _ => noValue

/-- A default of a parameter. -/
def ofValue (v : Value) : Argument σ α :=
  .object (.value v)

end Argument

namespace Parameters

variable {σ α β : Type}

/-- An argument that is a value. -/
def value (name : String) : Parameters (Argument σ α) Value := do
  (← required name).asValue

def valueD (name : String) (fallback : Value) : Parameters (Argument σ α) Value := do
  (← optional name (.ofValue fallback)).asValue

def column (name : String) : Parameters (Argument σ α) String := do
  (← required name).asColumn

def flagD (name : String) (fallback : Bool) : Parameters (Argument σ α) Bool := do
  return (← valueD name (.bool fallback)).isTruthy

def nullable (name : String) : Parameters (Argument σ α) (Argument σ α) :=
  optional name (.ofValue .null)

/-- All arguments that are left, as values. -/
def otherValues : Parameters (Argument σ α) (List Value) := do
  (← others).mapM fun a => a.asValue

/-- Reads parameters that take values only. -/
def ofValues (parameters : Parameters Value β) : Parameters (Argument σ α) β := do
  let args : Arguments (Argument σ α) ← get
  let positional ← args.positional.mapM fun a => liftM a.asValue
  let named ← args.named.mapM fun (name, a) => do return (name, ← a.asValue)
  set (⟨args.callee, [], []⟩ : Arguments (Argument σ α))
  parameters.read ⟨args.callee, positional, named⟩

end Parameters

end DocumentMapper
