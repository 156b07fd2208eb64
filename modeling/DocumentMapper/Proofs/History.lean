import DocumentMapper.Proofs.Procedure

/-!
# Histories of procedures

The history of a procedure keeps for each of its steps the state in which it was taken and the one
that it left. Part of a state may be left alone by everything but the steps, so that on this part
each step begins where the last one ended. What the steps preserve can then be followed along such a
chain, also where it changes at one of them.
-/

namespace DocumentMapper

/-- A step that was taken. -/
structure Taken (τ ε : Type) where
  step : ε
  before : τ
  outcome : Except Error Unit
  after : τ

/-- The same step as one of another kind. -/
def Taken.map {τ ε ε' : Type} (f : ε → ε') (a : Taken τ ε) : Taken τ ε' :=
  ⟨f a.step, a.before, a.outcome, a.after⟩

structure History (τ ε : Type) where
  taken : List (Taken τ ε)
  ending : Ending
  final : τ

variable {τ ρ ε ε' : Type}

/-- Takes a step and goes on unless it fails. -/
def History.take (act : ε → Action τ Unit) (step : ε) (next : τ → History τ ε) (t : τ) :
    History τ ε :=
  match (act step).run t with
  | (.ok (), t') => { next t' with taken := ⟨step, t, .ok (), t'⟩ :: (next t').taken }
  | (.error e, t') => ⟨[⟨step, t, .error e, t'⟩], .failed e, t'⟩

theorem History.take_ok {act : ε → Action τ Unit} {step : ε} {next : τ → History τ ε} {t t' : τ}
    (h : (act step).run t = (.ok (), t')) : History.take act step next t =
      { next t' with taken := ⟨step, t, .ok (), t'⟩ :: (next t').taken } := by
  rw [take, h]

theorem History.take_error {act : ε → Action τ Unit} {step : ε} {next : τ → History τ ε}
    {t t' : τ} {e : Error} (h : (act step).run t = (.error e, t')) :
    History.take act step next t = ⟨[⟨step, t, .error e, t'⟩], .failed e, t'⟩ := by
  rw [take, h]

namespace Phase

/-- The history of phases that are performed in a state. -/
def history (act : ε → Action τ Unit) : List (Phase τ ε) → τ → History τ ε
  | [], t => ⟨[], .finished, t⟩
  | one step :: rest, t => .take act step (history act rest) t
  | each find :: rest, t =>
    match find.run t with
    | (.ok found, t') => found.foldr (.take act) (history act rest) t'
    | (.error e, t') => ⟨[], .failed e, t'⟩
  | only test :: rest, t => if test t then history act rest t else ⟨[], .stopped, t⟩

variable (act : ε → Action τ Unit) {phases rest : List (Phase τ ε)} {next : τ → History τ ε}

/-! ## The steps of a history -/

theorem follows_take (step : ε)
    (h : ∀ t, Follows act rest t ((next t).taken.map Taken.step) (next t).ending (next t).final)
    (t : τ) : Follows act (.one step :: rest) t ((History.take act step next t).taken.map Taken.step)
      (History.take act step next t).ending (History.take act step next t).final := by
  unfold History.take
  split
  · next t' hstep => exact .one hstep (h t')
  · next e t' hstep => exact .fail hstep

/-- The steps of a history are those that the phases take. -/
theorem follows_history (phases : List (Phase τ ε)) (t : τ) :
    Follows act phases t ((history act phases t).taken.map Taken.step)
      (history act phases t).ending (history act phases t).final := by
  induction phases generalizing t with
  | nil => exact .nil
  | cons phase rest ih =>
    cases phase with
    | one step => exact follows_take act step ih t
    | each find =>
      rw [history]
      split
      · next found t' hfind =>
        refine .each hfind ?_
        clear hfind
        induction found generalizing t' with
        | nil => exact ih t'
        | cons step found ihfound => exact follows_take act step ihfound t'
      · next e t' hfind => exact .unfound hfind
    | only test =>
      rw [history]
      split
      · next htest => exact .go htest (ih t)
      · next htest => exact .stop (Bool.eq_false_iff.2 htest)

end Phase

/-! ## Chains -/

/-- Steps that were really taken, each one beginning where the last one ended, as far as can be
seen. -/
inductive Linked (act : ε → Action τ Unit) (view : τ → ρ) : ρ → List (Taken τ ε) → ρ → Prop
  | nil {x : ρ} : Linked act view x [] x
  | cons {a : Taken τ ε} {rest : List (Taken τ ε)} {y : ρ} :
      (act a.step).run a.before = (a.outcome, a.after) →
      Linked act view (view a.after) rest y → Linked act view (view a.before) (a :: rest) y

variable {act : ε → Action τ Unit} {view : τ → ρ} {x y z : ρ}
  {taken later early late : List (Taken τ ε)} {a : Taken τ ε}

namespace Linked

theorem append (h : Linked act view x taken y) (hlater : Linked act view y later z) :
    Linked act view x (taken ++ later) z := by
  induction h with
  | nil => exact hlater
  | cons hrun _ ih => exact .cons hrun (ih hlater)

/-- From each of its steps on, a chain is a chain. -/
theorem of_append (h : Linked act view x (early ++ a :: late) y) :
    (act a.step).run a.before = (a.outcome, a.after) ∧ Linked act view (view a.after) late y := by
  induction early generalizing x with
  | nil =>
    cases h with
    | cons hrun hlate => exact ⟨hrun, hlate⟩
  | cons b early ih =>
    cases h with
    | cons _ hrest => exact ih hrest

theorem map {act' : ε' → Action τ Unit} (f : ε → ε') (hf : ∀ step, act' (f step) = act step)
    (h : Linked act view x taken y) : Linked act' view x (taken.map (Taken.map f)) y := by
  induction h with
  | nil => exact .nil
  | @cons a rest y hrun _ ih =>
    refine Linked.cons (a := a.map f) ?_ ih
    rw [Taken.map, hf]
    exact hrun

theorem take (step : ε) {next : τ → History τ ε}
    (h : ∀ t, Linked act view (view t) (next t).taken (view (next t).final)) (t : τ) :
    Linked act view (view t) (History.take act step next t).taken
      (view (History.take act step next t).final) := by
  unfold History.take
  split
  · next t' hstep => exact .cons (a := ⟨step, t, .ok (), t'⟩) hstep (h t')
  · next e t' hstep => exact .cons (a := ⟨step, t, .error e, t'⟩) hstep .nil

/-- If no search for steps can be seen, then a history is a chain. -/
theorem history {phases : List (Phase τ ε)}
    (hfinds : ∀ find, .each find ∈ phases → ∀ t, view (find.run t).2 = view t) (t : τ) :
    Linked act view (view t) (Phase.history act phases t).taken
      (view (Phase.history act phases t).final) := by
  induction phases generalizing t with
  | nil => exact .nil
  | cons phase rest ih =>
    have ih := ih fun find hmem => hfinds find (List.mem_cons_of_mem _ hmem)
    cases phase with
    | one step => exact take step ih t
    | each find =>
      have hview := hfinds find List.mem_cons_self t
      rw [Phase.history]
      split
      · next found t' hfind =>
        rw [hfind] at hview
        rw [← hview]
        clear hfind hview
        induction found generalizing t' with
        | nil => exact ih t'
        | cons step found ihfound => exact take step ihfound t'
      · next e t' hfind =>
        rw [hfind] at hview
        rw [← hview]
        exact .nil
    | only test =>
      rw [Phase.history]
      split
      · exact ih t
      · exact .nil

end Linked

end DocumentMapper
