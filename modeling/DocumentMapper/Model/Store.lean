import DocumentMapper.Model.Lifecycle

/-!
# Creating and changing records of a model

Records are made, found and changed, and those that a query selects are deleted one by one, so
that listeners and rules have their part in it.
-/

namespace DocumentMapper.Store

variable {σ : Type} (ctx : Context σ) (cascade : Cascade σ) (m : Model σ)

/-- Saves a record and gives it as it is afterwards. -/
def saved (r : Record) (changes : Value) : Action σ Record := do
  let (outcome, r) ← Action.alongside r (cascade.save { SaveOptions.standard with changes })
  Action.ofExcept outcome
  return r

/-- Stores a new record of a value. -/
def create (v : Value) : Action σ Record := do
  saved cascade (← Action.ofExcept (Record.build m.name v)) .null

/-- Changes the record of an identity, if there is one. -/
def update (id changes : Value) : Action σ (Option Record) := do
  match ← Finder.find ctx m id with
  | none => return none
  | some r => return some (← saved cascade r changes)

def findOrCreate (filter v : Value) : Action σ Record := do
  match ← Finder.first ctx m filter with
  | none => create cascade m v
  | some r => return r

def updateOrCreate (filter v : Value) : Action σ Record := do
  match ← Finder.first ctx m filter with
  | none => create cascade m v
  | some r => saved cascade r v

/-- Deletes records in turn. -/
def destroyAll : List Record → Action σ Unit
  | [] => return
  | r :: rest => do
    let (outcome, _) ← Action.alongside r cascade.destroy
    Action.ofExcept outcome
    destroyAll rest

/-- Deletes every record that a query gives and tells how many there were. -/
def deleteMatching : Query.Run σ Int := do
  let rs := (← Query.fetch ctx none).filterMap Record.ofValue?
  Query.outside (destroyAll cascade rs)
  return rs.length

end DocumentMapper.Store
