import DocumentMapper.Call.Query

/-!
# Calls of joinables

What a joinable does under the names that scripts use. Any other name is one of the query for the
joined records, which is not attached to a database.
-/

namespace DocumentMapper.Joinable

open Parameters

variable {σ α : Type} (w : Workspace σ α)

/-- A call that changes the joinable and gives it back. -/
def changing (change : Change) : Action (Joinable × σ) (Reply σ) := do
  Action.first (apply change)
  return .itself

def giving (f : Joinable → Object σ) : Action (Joinable × σ) (Reply σ) := do
  return .object (f (← get).1)

/-- A change that sets an option. -/
def setting (name parameter : String) : Option (Parameters (Argument σ α) Change) :=
  some do return .option name (← value parameter)

/-- The change of a name: one of the options, or a refinement of the joined records. -/
def change? : String → Option (Parameters (Argument σ α) Change)
  | "local_field" => setting "localField" "local_field"
  | "foreign_field" => setting "foreignField" "foreign_field"
  | "as_" => setting "as" "alias"
  | "single" => some do return .option "single" (← valueD "single" (.bool true))
  | "let" => setting "let" "let_data"
  | "return_as" => some do return .transform (← (← required "transform").asTransform?)
  | "set" => some do return .options (← (← value "data").toDocument)
  | name => (Refinement.named? name).map fun parameters => do
    return .refine (← ofValues parameters)

/-- What a joinable gives under a name. -/
def call? : String → Call? σ α Joinable
  | "get" => some do
    let key ← value "key"
    let fallback ← valueD "default" .null
    return giving fun j => .value (((j.options.get? key).getD .null).orElse fallback)
  | "default_name" => some (return giving fun j => .value j.defaultName)
  | "alias" => some (return giving fun j => .value j.landing)
  | "parse" => some (return do
    return .value (.dict (← Action.first Joinable.take)))
  | "clone" => some (return giving fun j => .joinable j.clone)
  | _ => none

/-- The query for the joined records. -/
def query (j : Joinable) : Query :=
  ⟨j.schema.collection, .detached, j.stages, []⟩

/-- An action on the query for the joined records. -/
def onQuery {β : Type} (act : Action (Query × σ) β) : Action (Joinable × σ) β :=
  act.within (fun (j, s) => (j.query, s)) fun (q, s) (j, _) => ({ j with stages := q.stages }, s)

/-- The call of a name on a joinable. -/
def named? (j : Joinable) (name : String) : Call? σ α Joinable :=
  let change := (change? name).map fun parameters => do return changing (← parameters)
  change.or ((call? name).or ((Query.named? w j.query name).map fun parameters => do
    return onQuery (← parameters)))

end DocumentMapper.Joinable
