import DocumentMapper.Error
import DocumentMapper.Value.Access

/-!
# Events and their listeners

Nine events mark the life of a record. A registry keeps listeners for each of them in the order in
which they were registered. Every model has a registry of its own, and one registry hears of the
records of all models.
-/

namespace DocumentMapper

inductive Event where
  | saving
  | saved
  | creating
  | created
  | updating
  | updated
  | deleting
  | deleted
  | fetching
  deriving DecidableEq, Repr

namespace Event

def every : List Event :=
  [saving, saved, creating, created, updating, updated, deleting, deleted, fetching]

def name : Event → String
  | saving => "saving"
  | saved => "saved"
  | creating => "creating"
  | created => "created"
  | updating => "updating"
  | updated => "updated"
  | deleting => "deleting"
  | deleted => "deleted"
  | fetching => "fetching"

def names : List String :=
  every.map name

end Event

/-- Which registry listeners belong to. -/
inductive RegistryId where
  /-- The registry that hears of all models. -/
  | base
  | model (name : String)
  /-- A registry made apart from any model. -/
  | own (name : String)
  deriving DecidableEq, Repr, Inhabited

/-- Listeners under the names of events. A name that listeners were taken off of stays a name
that listeners can be registered under. -/
structure Registry (α : Type) where
  collection : Value
  listeners : List (Value × List α)

namespace Registry

variable {α : Type}

def fresh (collection : Value) : Registry α :=
  ⟨collection, Event.names.map fun name => (.text name, [])⟩

/-- The listeners under a name, if listeners can be registered under it. -/
def of? (r : Registry α) (event : Value) : Option (List α) :=
  (r.listeners.find? fun (e, _) => e.same event).map (·.2)

def of (r : Registry α) (event : Value) : List α :=
  (r.of? event).getD []

/-- Puts a list of listeners under a name. -/
def put (event : Value) (ls : List α) : List (Value × List α) → List (Value × List α)
  | [] => [(event, ls)]
  | (e, old) :: rest => if e.same event then (e, ls) :: rest else (e, old) :: put event ls rest

/-- Registers a listener for an event that the registry knows. -/
def on (r : Registry α) (event : Value) (listener : α) : Except Error (Registry α) := do
  match r.of? (← event.asKey) with
  | some ls => .ok { r with listeners := put event (ls ++ [listener]) r.listeners }
  | none => .error (.unknownEvent event)

/-- Takes off the listeners of some events. -/
def clear (r : Registry α) (events : List Value) : Registry α :=
  { r with listeners := events.foldl (fun ls e => put e [] ls) r.listeners }

/-- Takes off the listeners of an event, of all nine if none is given. -/
def off (r : Registry α) (event : Value) : Except Error (Registry α) := do
  if event.isTruthy then return r.clear [← event.asKey]
  else return r.clear (Event.names.map .text)

end Registry

end DocumentMapper
