import DocumentMapper.Action
import DocumentMapper.Sync.Rule

/-!
# Fan-out over targets

A rule treats one target after another. A target that fails is reported. Under the policy of
aborting the first failure ends the run; under that of going on every target has its turn, and the
failures are gathered in the order of the targets.
-/

namespace DocumentMapper.Sync

variable {σ : Type}

/-- How targets are treated and what is said of those that fail. -/
structure Treatment (σ : Type) where
  treat : Action (Record × σ) Unit
  report : Record → Error → Action σ Unit
  /-- The error that ends a run. -/
  aborted : Record → Error → Error

/-- Treats targets in turn and gives those that failed, by identity, with the reasons. -/
def fanOut (policy : Policy) (t : Treatment σ) :
    List Record → Action σ (List (Value × Error))
  | [] => return []
  | target :: rest => do
    let (outcome, target) ← Action.alongside target t.treat
    match outcome with
    | .ok _ => fanOut policy t rest
    | .error e =>
      t.report target e
      match policy with
      | .abort => throw (t.aborted target e)
      | .continue => return (target.id, e) :: (← fanOut policy t rest)

end DocumentMapper.Sync
