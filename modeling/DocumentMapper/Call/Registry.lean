import DocumentMapper.Call.Object

/-!
# Calls of registries

What a registry of listeners does under the names that scripts use.
-/

namespace DocumentMapper.Registry

open Parameters

variable {σ α : Type} (w : Workspace σ α)

/-- Registers a listener and gives the registry back. -/
def register (id : RegistryId) (event : Value) (l : α) : Action (RegistryId × σ) (Reply σ) := do
  let r ← Action.second (w.registry id)
  Action.second (w.setRegistry id (← Action.ofExcept (r.on event l)))
  return .itself

/-- Tells listeners in turn. -/
def tellAll (args : List Value) : List α → Action σ Unit
  | [] => return
  | l :: rest => do
    (w.listener l).onValues args
    tellAll args rest

/-- Tells the listeners that an event has at the moment. Those that come while they are told hear
of the next one. -/
def trigger (id : RegistryId) (event : Value) (args : List Value) : Action σ Unit := do
  let r ← w.registry id
  tellAll w args (r.of (← Action.ofExcept event.asKey))

def call? (id : RegistryId) : String → Call? σ α RegistryId
  | "on" => some do
    let event ← value "event"
    return register w id event (← (← required "callback").asListener)
  | "off" => some do
    let event ← valueD "event" .null
    return do
      let r ← Action.second (w.registry id)
      Action.second (w.setRegistry id (← Action.ofExcept (r.off event)))
      return .nothing
  | "trigger" => some do
    let event ← value "event"
    let args ← otherValues
    return do
      Action.second (trigger w id event args)
      return .nothing
  | _ => none

/-- The event that a name of the form `on_event` names. -/
def eventOf? (name : String) : Option Event :=
  Event.every.find? fun e => "on_" ++ e.name == name

/-- The call of a name on a registry. -/
def named? (id : RegistryId) (name : String) : Call? σ α RegistryId :=
  match eventOf? name with
  | some e => some do
    return register w id (.text e.name) (← (← required "callback").asListener)
  | none => call? w id name

end DocumentMapper.Registry
