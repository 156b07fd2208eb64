import DocumentMapper.Proofs.Query.Concatenation

/-!
# Rejected calls

A call that fails has gone through its draft up to the stage that was refused, and keeps what it put
down before. It leaves the pipeline as it was exactly if the first stage of its draft is the one
refused. That is so for every call of one stage; a filter by the length of an array, a list of raw
stages and a join that says more than that can fail behind a stage that stays.
-/

namespace DocumentMapper

namespace Draft

variable {α : Type} {draft : Draft} {e : Error}

/-- A draft that fails puts nothing down exactly if it fails at once. -/
theorem placed_eq_nil_iff (h : draft.outcome = .error e) :
    draft.placed = [] ↔ draft.head? = some (.error e) := by
  cases draft with
  | nil => cases h
  | cons step rest =>
    cases step with
    | error e' =>
      cases h
      simp
    | ok s => simp

theorem length_after_le {found : Except Error α} {next : α → Draft}
    (h : ∀ a, (next a).length ≤ 1) : (after found next).length ≤ 1 := by
  cases found with
  | error e => exact Nat.le_refl 1
  | ok a => exact h a

/-- A draft of one stage that fails puts nothing down. -/
theorem placed_of_length_le (hlength : draft.length ≤ 1) (h : draft.outcome = .error e) :
    draft.placed = [] := by
  cases draft with
  | nil => cases h
  | cons step rest =>
    have hrest : rest = [] := List.eq_nil_of_length_eq_zero (by simpa using hlength)
    subst hrest
    cases step with
    | error e' => rfl
    | ok s => cases h

end Draft

/-- A refinement that puts down one stage at most. -/
def Refinement.isSingle : Refinement → Bool
  | raws _ | arraySize .. | lookup _ => false
  | _ => true

theorem Refinement.length_draft_le {r : Refinement} (hr : r.isSingle = true)
    (stages : List Stage) : (r.draft stages).length ≤ 1 := by
  cases r with
  | compare column operator others => exact Draft.length_after_le fun _ => Nat.le_refl 1
  | groupByDate parts column accumulators => exact Draft.length_after_le fun _ => Nat.le_refl 1
  | group key accumulators => cases key <;> exact Nat.le_refl 1
  | raws _ | arraySize _ _ | lookup _ => cases hr
  | reset => exact Nat.zero_le 1
  | _ => exact Nat.le_refl 1

namespace Query

variable {σ : Type} {m : Model σ} {q : Query} {c : Extension} {e : Error}

/-- A call that puts down one stage at most. -/
def Extension.isSingle : Extension → Bool
  | refine r => r.isSingle
  | _ => false

/-- A call that fails keeps the stages that it put down before the one that was refused, and nothing
else. It leaves the pipeline as it was exactly if the first stage of its draft was refused, as in
every call of one stage. -/
theorem stages_of_rejected (hfail : ((c.act m).run q).1 = .error e) :
    let draft := c.draft m q.stages
    (∃ rest, draft = (draft.placed.map Except.ok : Draft) ++ .error e :: rest) ∧
      ((c.act m).run q).2.stages = q.stages ++ draft.placed ∧
      (((c.act m).run q).2.stages = q.stages ↔ draft.head? = some (.error e)) ∧
      (c.isSingle = true → ((c.act m).run q).2.stages = q.stages) := by
  intro draft
  have hreset : c ≠ .refine .reset := by
    rintro rfl
    cases hfail
  obtain ⟨houtcome, hstages⟩ := run_act_of_ne (m := m) hreset q
  have hdraft : draft.outcome = .error e := houtcome.symm.trans hfail
  have hunchanged : ((c.act m).run q).2.stages = q.stages ↔ draft.placed = [] := by
    rw [hstages]
    exact List.append_right_eq_self
  refine ⟨Draft.outcome_eq_error.1 hdraft, hstages,
    hunchanged.trans (Draft.placed_eq_nil_iff hdraft), fun hsingle => hunchanged.2 ?_⟩
  cases c with
  | refine r =>
    have hlength : draft.length ≤ 1 := Refinement.length_draft_le hsingle q.stages
    exact Draft.placed_of_length_le hlength hdraft
  | _ => cases hsingle

/-- A number that is skipped, and no stage at all. -/
def skipAndGuess : Extension :=
  .refine (.raws (.list [.dict [(.text "$skip", .int 2)], .text "guess"]))

theorem stages_of_rejected_skipAndGuess :
    let m : Model Unit := Context.quiet.model "Order"
    let q := fresh "orders" (.attached none)
    ((skipAndGuess.act m).run q).1 = .error (.rawStageShape (.text "guess")) ∧
      ((skipAndGuess.act m).run q).2.stages = [.skip (.int 2)] := by
  intro m q
  have hfail : ((skipAndGuess.act m).run q).1 = .error (.rawStageShape (.text "guess")) := rfl
  obtain ⟨-, hstages, -⟩ := stages_of_rejected hfail
  exact ⟨hfail, hstages⟩

/-- Orders with many tags, by an operator that does not exist. -/
def manyTags : Extension :=
  .refine (.arraySize (.text "tags") [.text "larger", .int 3])

/-- The field with the number of tags stays when the filter on it is refused. -/
theorem not_stages_eq_of_manyTags :
    ¬ ∀ (q : Query) (c : Extension) (e : Error),
      ((c.act (Context.quiet.model "Order")).run q).1 = .error e →
        ((c.act (Context.quiet.model "Order")).run q).2.stages = q.stages := by
  intro h
  have hstages := h (fresh "orders" (.attached none)) manyTags
    (.unknownOperator (.text "larger")) rfl
  cases hstages

end Query

end DocumentMapper
