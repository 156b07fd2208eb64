import DocumentMapper.Call.Object

/-!
# Calls of rules

What a rule for embedded copies does under the names that scripts use.
-/

namespace DocumentMapper.Sync.Rule

open Parameters

variable {σ α : Type} (w : Workspace σ α)

/-- A call that changes the rule and gives it back. -/
def changing (change : Rule σ → Rule σ) : Action (Rule σ × σ) (Reply σ) := do
  modify fun (r, s) => (change r, s)
  return .itself

/-- A declaration that needs no arguments. -/
def plainly (change : Rule σ → Rule σ) : Option (Parameters (Argument σ α) (Rule σ → Rule σ)) :=
  some (return change)

/-- What a declaration of a name changes in a rule. -/
def declaration? : String → Option (Parameters (Argument σ α) (Rule σ → Rule σ))
  | "update_when_change" => some do
    let columns ← (← required "columns").asColumns
    return ({ · with watched := some columns })
  | "where" => some do
    match ← required "refiner" with
    | .refiner f => return ({ · with refiner := some f })
    | _ => return ({ · with refiner := none })
  | "unset_on_delete" => plainly ({ · with onDelete := .unset })
  | "remove_on_delete" => plainly ({ · with onDelete := .remove })
  | "ignore_on_delete" => plainly ({ · with onDelete := .ignore })
  | "embed_on_create_from" => some do
    let c ← column "column"
    return ({ · with embedFrom := c })
  | "sync_many" => plainly ({ · with mode := .many })
  | "continue_on_failure" => plainly ({ · with policy := .continue })
  | "abort_on_failure" => plainly ({ · with policy := .abort })
  | _ => none

/-- A call that does what the rule does for a record. -/
def doing (f : Rule σ → Action σ Unit) : Action (Rule σ × σ) (Reply σ) := do
  let (r, _) ← get
  Action.second (f r)
  return .nothing

/-- What a rule does of a name, besides declarations. -/
def call? : String → Call? σ α (Rule σ)
  | "embed_payload" => some do
    let r ← (← required "record").asRecord
    return do
      let (rule, _) ← get
      return .value (← Action.ofExcept (rule.payload (schemaOf w.context r) r))
  | "sync" => some do
    let r ← (← required "record").asRecord
    let mode ← value "save_mode"
    let old ← (← nullable "old_record").asRecord?
    return doing fun rule => onSave w.context w.cascade rule r (.ofWord mode old)
  | "sync_update" => some do
    let r ← (← required "record").asRecord
    let old ← (← nullable "old_record").asRecord?
    return doing fun rule => onUpdate w.context w.cascade rule r old
  | "sync_destruction" => some do
    let r ← (← required "record").asRecord
    return doing fun rule => onDestroy w.context w.cascade rule r
  | _ => none

/-- The call of a name on a rule. -/
def named? (name : String) : Call? σ α (Rule σ) :=
  ((declaration? name).map fun parameters => do return changing (← parameters)).or (call? w name)

/-- The text that stands for a rule. -/
def text (r : Rule σ) : String :=
  "<ModelSync " ++ r.target ++ " columns=" ++ (Value.list (r.columns.map .text)).literal
    ++ " mode=" ++ r.mode.name ++ " on_delete=" ++ r.onDelete.name ++ ">"

end DocumentMapper.Sync.Rule
