import DocumentMapper.Action
import Mathlib.Data.List.Infix

/-!
# Procedures and their courses

A procedure is written down as phases. A phase is one step, or the steps that are found when the
procedure comes to it, or a test of whether there is anything left to do. Performing a procedure
takes one step after another until one of them fails.

`Follows` says which steps a procedure took from a state and how it ended; `Full` says which steps
it takes when nothing fails and no test stops it. Whatever a procedure does, the steps it took are
the first ones of a full course, and an order that the phases keep is kept by all its courses.
-/

namespace DocumentMapper

namespace Action

variable {σ τ α β : Type} {P : σ → Prop} {act : Action σ α} {s s' : σ}

theorem run_second {act : Action σ α} {outcome : Except Error α} (h : act.run s = (outcome, s'))
    (t : τ) : (second act).run (t, s) = (outcome, t, s') := by
  simp only [second, within, h]

theorem run_second_eq_iff {act : Action σ α} {outcome : Except Error α} {t t' : τ} :
    (second act).run (t, s) = (outcome, t', s') ↔ act.run s = (outcome, s') ∧ t' = t := by
  rcases hact : act.run s with ⟨result, s₁⟩
  rw [run_second hact]
  constructor
  · intro h
    cases h
    exact ⟨rfl, rfl⟩
  · rintro ⟨h, rfl⟩
    cases h
    rfl

/-- An action after which a property of the state still holds, whether it succeeds or not. -/
def Preserves (P : σ → Prop) (act : Action σ α) : Prop :=
  ∀ s, P s → P (act.run s).2

namespace Preserves

theorem of_run {outcome : Except Error α} (h : Preserves P act) (hs : P s)
    (hrun : act.run s = (outcome, s')) : P s' := by
  have := h s hs
  rwa [hrun] at this

theorem pure (a : α) : Preserves P (Pure.pure a) := fun _ hs => hs

theorem ofExcept (outcome : Except Error α) : Preserves P (ofExcept outcome) := fun _ hs => hs

theorem second {Q : τ → Prop} (act : Action σ α) :
    Preserves (fun t => Q t.1) (second act : Action (τ × σ) α) := fun _ hs => hs

theorem bind {next : α → Action σ β} (h : Preserves P act)
    (hnext : ∀ a, Preserves P (next a)) : Preserves P (act >>= next) := by
  intro s hs
  rw [run_bind]
  rcases hact : act.run s with ⟨e | a, s₁⟩
  · exact h.of_run hs hact
  · exact hnext a s₁ (h.of_run hs hact)

theorem ofExcept_bind {outcome : Except Error α} {next : α → Action σ β}
    (hnext : ∀ a, outcome = .ok a → Preserves P (next a)) :
    Preserves P (Action.ofExcept outcome >>= next) := by
  intro s hs
  cases outcome with
  | error e => exact hs
  | ok a => exact hnext a rfl s hs

theorem forM {γ : Type} {f : γ → Action σ PUnit} {l : List γ} (h : ∀ x ∈ l, Preserves P (f x)) :
    Preserves P (l.forM f) := by
  induction l with
  | nil => exact pure ()
  | cons x l ih =>
    exact (h x List.mem_cons_self).bind fun _ => ih fun y hy => h y (List.mem_cons_of_mem _ hy)

/-- What comes after such an action may rely on the property. -/
theorem run_bind_congr {next next' : α → Action σ β} (h : Preserves P act) (hs : P s)
    (hnext : ∀ a s₁, P s₁ → (next a).run s₁ = (next' a).run s₁) :
    (act >>= next).run s = (act >>= next').run s := by
  rw [run_bind, run_bind]
  rcases hact : act.run s with ⟨e | a, s₁⟩
  · rfl
  · exact hnext a s₁ (h.of_run hs hact)

end Preserves

end Action

inductive Phase (τ ε : Type) where
  | one (step : ε)
  /-- The steps that are found when the procedure comes to this phase. -/
  | each (find : Action τ (List ε))
  /-- Nothing is left to do unless the state passes the test. -/
  | only (test : τ → Bool)

/-- How a procedure ends. -/
inductive Ending where
  | finished
  /-- A test has found that nothing is left to do. -/
  | stopped
  | failed (e : Error)

/-- Whether a procedure came to its end, unless it failed. -/
def Ending.outcome : Ending → Except Error Bool
  | finished => .ok true
  | stopped => .ok false
  | failed e => .error e

namespace Phase

variable {τ ε : Type} (act : ε → Action τ Unit)

/-- Performs phases in turn and tells whether it came to the end of them. -/
def perform : List (Phase τ ε) → Action τ Bool
  | [] => return true
  | one step :: rest => do
    act step
    perform rest
  | each find :: rest => do
    (← find).forM act
    perform rest
  | only test :: rest => do
    if test (← get) then perform rest else return false

/-- The steps that phases take from a state, each one in the state that the last one left, how they
end and in which state. A step that fails is the last one. -/
inductive Follows : List (Phase τ ε) → τ → List ε → Ending → τ → Prop
  | nil {t : τ} : Follows [] t [] .finished t
  | one {t t₁ t' : τ} {step : ε} {rest : List (Phase τ ε)} {steps : List ε} {ending : Ending} :
      (act step).run t = (.ok (), t₁) → Follows rest t₁ steps ending t' →
      Follows (.one step :: rest) t (step :: steps) ending t'
  | fail {t t' : τ} {step : ε} {rest : List (Phase τ ε)} {e : Error} :
      (act step).run t = (.error e, t') → Follows (.one step :: rest) t [step] (.failed e) t'
  | each {t t₁ t' : τ} {find : Action τ (List ε)} {found : List ε} {rest : List (Phase τ ε)}
      {steps : List ε} {ending : Ending} :
      find.run t = (.ok found, t₁) → Follows (found.map .one ++ rest) t₁ steps ending t' →
      Follows (.each find :: rest) t steps ending t'
  | unfound {t t' : τ} {find : Action τ (List ε)} {rest : List (Phase τ ε)} {e : Error} :
      find.run t = (.error e, t') → Follows (.each find :: rest) t [] (.failed e) t'
  | go {t t' : τ} {test : τ → Bool} {rest : List (Phase τ ε)} {steps : List ε} {ending : Ending} :
      test t = true → Follows rest t steps ending t' →
      Follows (.only test :: rest) t steps ending t'
  | stop {t : τ} {test : τ → Bool} {rest : List (Phase τ ε)} :
      test t = false → Follows (.only test :: rest) t [] .stopped t

/-- The steps of phases that are all gone through. A phase that finds its steps itself may be
thought to find none where the procedure does not come to it. -/
inductive Full : List (Phase τ ε) → List ε → Prop
  | nil : Full [] []
  | one {step : ε} {rest : List (Phase τ ε)} {steps : List ε} :
      Full rest steps → Full (.one step :: rest) (step :: steps)
  | each {t t' : τ} {find : Action τ (List ε)} {found : List ε} {rest : List (Phase τ ε)}
      {steps : List ε} :
      find.run t = (.ok found, t') → Full rest steps → Full (.each find :: rest) (found ++ steps)
  | unread {find : Action τ (List ε)} {rest : List (Phase τ ε)} {steps : List ε} :
      Full rest steps → Full (.each find :: rest) steps
  | only {test : τ → Bool} {rest : List (Phase τ ε)} {steps : List ε} :
      Full rest steps → Full (.only test :: rest) steps

variable {act} {phases rest : List (Phase τ ε)} {t t₁ t' : τ} {steps whole found : List ε}
  {ending : Ending}

/-! ## What performing phases amounts to -/

theorem perform_append (phases rest : List (Phase τ ε)) :
    perform act (phases ++ rest) = (do
      if ← perform act phases then perform act rest else return false) := by
  induction phases with
  | nil => simp [perform]
  | cons phase phases ih =>
    cases phase with
    | one step => simp [perform, ih]
    | each find => simp [perform, ih]
    | only test =>
      simp only [List.cons_append, perform, ih, bind_assoc]
      refine bind_congr fun t => ?_
      split <;> simp

theorem perform_ones (found : List ε) (rest : List (Phase τ ε)) :
    perform act (found.map .one ++ rest) = (do found.forM act; perform act rest) := by
  induction found with
  | nil => simp
  | cons step found ih => simp [perform, ih]

variable (act) in
/-- Phases that amount to an action, whatever comes after them. -/
def Amount (phases : List (Phase τ ε)) (whole : Action τ Unit) : Prop :=
  ∀ rest, perform act (phases ++ rest) = (do whole; perform act rest)

namespace Amount

variable {a b : Action τ Unit} {others : List (Phase τ ε)}

theorem nil : Amount act [] (return) := fun _ => by simp

variable (act) in
theorem one (step : ε) : Amount act [.one step] (act step) := fun _ => rfl

variable (act) in
theorem ones (found : List ε) : Amount act (found.map .one) (found.forM act) :=
  perform_ones found

variable (act) in
theorem each (find : Action τ (List ε)) :
    Amount act [.each find] (do (← find).forM act) := fun rest => by simp [perform]

theorem append (h : Amount act phases a) (h' : Amount act others b) :
    Amount act (phases ++ others) (do a; b) := fun rest => by
  rw [List.append_assoc, h, h', bind_assoc]

theorem flatMap {γ : Type} {f : γ → List (Phase τ ε)} {g : γ → Action τ Unit} (l : List γ)
    (h : ∀ x ∈ l, Amount act (f x) (g x)) : Amount act (l.flatMap f) (l.forM g) := by
  induction l with
  | nil => exact nil
  | cons x l ih =>
    exact (h x List.mem_cons_self).append (ih fun y hy => h y (List.mem_cons_of_mem _ hy))

theorem ite {p : Prop} [Decidable p] (h : Amount act phases a) :
    Amount act (if p then phases else []) (if p then a else return) := by
  split
  · exact h
  · exact nil

theorem perform_eq (h : Amount act phases a) : perform act phases = (do a; return true) := by
  have hnil := h []
  rwa [List.append_nil] at hnil

theorem perform_bind (h : Amount act phases a) {γ : Type} (done undone : Action τ γ) :
    (do if ← perform act phases then done else undone) = (do a; done) := by
  simp [h.perform_eq]

end Amount

/-! ## Courses -/

theorem exists_follows_ones
    (h : ∀ t, ∃ steps ending t', Follows act rest t steps ending t' ∧
      (perform act rest).run t = (ending.outcome, t'))
    (found : List ε) (t : τ) :
    ∃ steps ending t', Follows act (found.map .one ++ rest) t steps ending t' ∧
      (perform act (found.map .one ++ rest)).run t = (ending.outcome, t') := by
  induction found generalizing t with
  | nil => exact h t
  | cons step found ih =>
    rcases hstep : (act step).run t with ⟨e | ⟨⟩, t₁⟩
    · exact ⟨_, _, t₁, .fail hstep, Action.run_bind_error hstep⟩
    · obtain ⟨steps, ending, t', hfollows, hrun⟩ := ih t₁
      exact ⟨_, ending, t', .one hstep hfollows, (Action.run_bind_ok hstep).trans hrun⟩

variable (act) in
/-- Performing phases follows a course of them and gives what it ends with. -/
theorem exists_follows (phases : List (Phase τ ε)) (t : τ) :
    ∃ steps ending t', Follows act phases t steps ending t' ∧
      (perform act phases).run t = (ending.outcome, t') := by
  induction phases generalizing t with
  | nil => exact ⟨[], .finished, t, .nil, rfl⟩
  | cons phase rest ih =>
    cases phase with
    | one step => exact exists_follows_ones ih [step] t
    | each find =>
      rcases hfind : find.run t with ⟨e | found, t₁⟩
      · exact ⟨[], _, t₁, .unfound hfind, Action.run_bind_error hfind⟩
      · obtain ⟨steps, ending, t', hfollows, hrun⟩ := exists_follows_ones ih found t₁
        refine ⟨steps, ending, t', .each hfind hfollows, ?_⟩
        rw [← hrun, perform_ones]
        exact Action.run_bind_ok hfind
    | only test =>
      cases htest : test t with
      | false =>
        refine ⟨[], .stopped, t, .stop htest, ?_⟩
        rw [perform, Action.run_bind_ok (Action.run_get t)]
        simp [htest, Ending.outcome]
      | true =>
        obtain ⟨steps, ending, t', hfollows, hrun⟩ := ih t
        refine ⟨steps, ending, t', .go htest hfollows, ?_⟩
        rw [perform, Action.run_bind_ok (Action.run_get t)]
        simpa [htest] using hrun

namespace Full

theorem append_iff : Full (phases ++ rest) whole ↔
    ∃ first last, whole = first ++ last ∧ Full phases first ∧ Full rest last := by
  constructor
  · intro h
    induction phases generalizing whole with
    | nil => exact ⟨[], whole, rfl, .nil, h⟩
    | cons phase phases ih =>
      cases h with
      | one h =>
        obtain ⟨first, last, rfl, hfirst, hlast⟩ := ih h
        exact ⟨_, last, rfl, .one hfirst, hlast⟩
      | each hfind h =>
        obtain ⟨first, last, rfl, hfirst, hlast⟩ := ih h
        exact ⟨_, last, (List.append_assoc ..).symm, .each hfind hfirst, hlast⟩
      | unread h =>
        obtain ⟨first, last, rfl, hfirst, hlast⟩ := ih h
        exact ⟨_, last, rfl, .unread hfirst, hlast⟩
      | only h =>
        obtain ⟨first, last, rfl, hfirst, hlast⟩ := ih h
        exact ⟨_, last, rfl, .only hfirst, hlast⟩
  · rintro ⟨first, last, rfl, hfirst, hlast⟩
    induction hfirst with
    | nil => exact hlast
    | one _ ih => exact .one ih
    | each hfind _ ih =>
      rw [List.append_assoc]
      exact .each hfind ih
    | unread _ ih => exact .unread ih
    | only _ ih => exact .only ih

theorem of_ones {found : List ε} (h : Full (found.map (@Phase.one τ ε)) whole) : whole = found := by
  induction found generalizing whole with
  | nil =>
    cases h
    rfl
  | cons step found ih =>
    cases h with
    | one h => rw [ih h]

/-- There is always a full course: one in which nothing is found. -/
theorem «exists» (phases : List (Phase τ ε)) : ∃ whole, Full phases whole := by
  induction phases with
  | nil => exact ⟨[], .nil⟩
  | cons phase phases ih =>
    obtain ⟨whole, h⟩ := ih
    cases phase with
    | one step => exact ⟨_, .one h⟩
    | each find => exact ⟨_, .unread h⟩
    | only test => exact ⟨_, .only h⟩

end Full

namespace Follows

/-- The steps that were taken are the first ones of a full course, and all of it if the procedure
came to its end. -/
theorem exists_full (h : Follows act phases t steps ending t') :
    ∃ whole, Full phases whole ∧ steps <+: whole ∧ (ending = .finished → steps = whole) := by
  induction h with
  | nil => exact ⟨[], .nil, List.prefix_rfl, fun _ => rfl⟩
  | one _ _ ih =>
    obtain ⟨whole, hfull, hinitial, hall⟩ := ih
    exact ⟨_, .one hfull, List.prefix_cons_inj _ |>.2 hinitial, fun h => by rw [hall h]⟩
  | fail _ =>
    obtain ⟨whole, hfull⟩ := Full.exists _
    exact ⟨_, .one hfull, List.prefix_append [_] whole, by simp⟩
  | each hfind _ ih =>
    obtain ⟨whole, hfull, hinitial, hall⟩ := ih
    obtain ⟨first, last, rfl, hfirst, hlast⟩ := Full.append_iff.1 hfull
    rw [hfirst.of_ones] at hinitial hall
    exact ⟨_, .each hfind hlast, hinitial, hall⟩
  | unfound _ =>
    obtain ⟨whole, hfull⟩ := Full.exists _
    exact ⟨whole, .unread hfull, List.nil_prefix, by simp⟩
  | go _ _ ih =>
    obtain ⟨whole, hfull, hinitial, hall⟩ := ih
    exact ⟨whole, .only hfull, hinitial, hall⟩
  | stop _ =>
    obtain ⟨whole, hfull⟩ := Full.exists _
    exact ⟨whole, .only hfull, List.nil_prefix, by simp⟩

/-- A procedure in two parts either ends within the first or goes through both. -/
theorem append (h : Follows act (phases ++ rest) t steps ending t') :
    (Follows act phases t steps ending t' ∧ ending ≠ .finished) ∨
      ∃ first last t₁, steps = first ++ last ∧ Follows act phases t first .finished t₁ ∧
        Follows act rest t₁ last ending t' := by
  generalize hall : phases ++ rest = all at h
  induction h generalizing phases with
  | nil =>
    obtain ⟨rfl, rfl⟩ := List.append_eq_nil_iff.1 hall
    exact .inr ⟨[], [], _, rfl, .nil, .nil⟩
  | one hstep h ih =>
    obtain ⟨rfl, rfl⟩ | ⟨phases, rfl, rfl⟩ := List.append_eq_cons_iff.1 hall
    · exact .inr ⟨[], _, _, rfl, .nil, .one hstep h⟩
    · obtain ⟨hfirst, hending⟩ | ⟨first, last, t₁, rfl, hfirst, hlast⟩ := ih rfl
      · exact .inl ⟨.one hstep hfirst, hending⟩
      · exact .inr ⟨_, last, t₁, rfl, .one hstep hfirst, hlast⟩
  | fail hstep =>
    obtain ⟨rfl, rfl⟩ | ⟨phases, rfl, rfl⟩ := List.append_eq_cons_iff.1 hall
    · exact .inr ⟨[], _, _, rfl, .nil, .fail hstep⟩
    · exact .inl ⟨.fail hstep, by simp⟩
  | each hfind h ih =>
    obtain ⟨rfl, rfl⟩ | ⟨phases, rfl, rfl⟩ := List.append_eq_cons_iff.1 hall
    · exact .inr ⟨[], _, _, rfl, .nil, .each hfind h⟩
    · obtain ⟨hfirst, hending⟩ | ⟨first, last, t₁, rfl, hfirst, hlast⟩ :=
        ih (List.append_assoc ..)
      · exact .inl ⟨.each hfind hfirst, hending⟩
      · exact .inr ⟨first, last, t₁, rfl, .each hfind hfirst, hlast⟩
  | unfound hfind =>
    obtain ⟨rfl, rfl⟩ | ⟨phases, rfl, rfl⟩ := List.append_eq_cons_iff.1 hall
    · exact .inr ⟨[], _, _, rfl, .nil, .unfound hfind⟩
    · exact .inl ⟨.unfound hfind, by simp⟩
  | go htest h ih =>
    obtain ⟨rfl, rfl⟩ | ⟨phases, rfl, rfl⟩ := List.append_eq_cons_iff.1 hall
    · exact .inr ⟨[], _, _, rfl, .nil, .go htest h⟩
    · obtain ⟨hfirst, hending⟩ | ⟨first, last, t₁, rfl, hfirst, hlast⟩ := ih rfl
      · exact .inl ⟨.go htest hfirst, hending⟩
      · exact .inr ⟨first, last, t₁, rfl, .go htest hfirst, hlast⟩
  | stop htest =>
    obtain ⟨rfl, rfl⟩ | ⟨phases, rfl, rfl⟩ := List.append_eq_cons_iff.1 hall
    · exact .inr ⟨[], _, _, rfl, .nil, .stop htest⟩
    · exact .inl ⟨.stop htest, by simp⟩

/-- A procedure goes on after a part of it that came to its end. -/
theorem trans (h : Follows act phases t steps .finished t₁) {others : List ε}
    (hrest : Follows act rest t₁ others ending t') :
    Follows act (phases ++ rest) t (steps ++ others) ending t' := by
  generalize hend : Ending.finished = first at h
  induction h with
  | nil => exact hrest
  | one hstep _ ih => exact .one hstep (ih hrest hend)
  | fail _ => cases hend
  | each hfind _ ih =>
    rw [List.append_assoc] at ih
    exact .each hfind (ih hrest hend)
  | unfound _ => cases hend
  | go htest _ ih => exact .go htest (ih hrest hend)
  | stop _ => cases hend

/-- A procedure that fails in its first part does not come to the rest. -/
theorem append_failed {e : Error} (h : Follows act phases t steps (.failed e) t')
    (rest : List (Phase τ ε)) : Follows act (phases ++ rest) t steps (.failed e) t' := by
  generalize hending : Ending.failed e = ending at h
  induction h with
  | nil => cases hending
  | one hstep _ ih => exact .one hstep (ih hending)
  | fail hstep => exact .fail hstep
  | each hfind _ ih =>
    have hrest := ih hending
    rw [List.append_assoc] at hrest
    exact .each hfind hrest
  | unfound hfind => exact .unfound hfind
  | go htest _ ih => exact .go htest (ih hending)
  | stop _ => cases hending

/-- There is one course from a state. -/
theorem det (h : Follows act phases t steps ending t') {others : List ε} {ending' : Ending} {u : τ}
    (h' : Follows act phases t others ending' u) : steps = others ∧ ending = ending' ∧ t' = u := by
  induction h generalizing others with
  | nil =>
    cases h'
    exact ⟨rfl, rfl, rfl⟩
  | one hstep _ ih =>
    cases h' with
    | one hstep' h' =>
      cases hstep.symm.trans hstep'
      obtain ⟨rfl, rfl, rfl⟩ := ih h'
      exact ⟨rfl, rfl, rfl⟩
    | fail hstep' => cases hstep.symm.trans hstep'
  | fail hstep =>
    cases h' with
    | one hstep' _ => cases hstep.symm.trans hstep'
    | fail hstep' =>
      cases hstep.symm.trans hstep'
      exact ⟨rfl, rfl, rfl⟩
  | each hfind _ ih =>
    cases h' with
    | each hfind' h' =>
      cases hfind.symm.trans hfind'
      exact ih h'
    | unfound hfind' => cases hfind.symm.trans hfind'
  | unfound hfind =>
    cases h' with
    | each hfind' _ => cases hfind.symm.trans hfind'
    | unfound hfind' =>
      cases hfind.symm.trans hfind'
      exact ⟨rfl, rfl, rfl⟩
  | go htest _ ih =>
    cases h' with
    | go _ h' => exact ih h'
    | stop htest' => cases htest.symm.trans htest'
  | stop htest =>
    cases h' with
    | go htest' _ => cases htest.symm.trans htest'
    | stop _ => exact ⟨rfl, rfl, rfl⟩

theorem run_perform (h : Follows act phases t steps ending t') :
    (perform act phases).run t = (ending.outcome, t') := by
  obtain ⟨others, ending', u, hfollows, hrun⟩ := exists_follows act phases t
  obtain ⟨rfl, rfl, rfl⟩ := h.det hfollows
  exact hrun

/-- Phases without a test do not stop before they come to their end. -/
theorem exists_only (h : Follows act phases t steps .stopped t') : ∃ test, .only test ∈ phases := by
  generalize hending : Ending.stopped = ending at h
  induction h with
  | nil => cases hending
  | one _ _ ih =>
    obtain ⟨test, hmem⟩ := ih hending
    exact ⟨test, List.mem_cons_of_mem _ hmem⟩
  | fail _ => cases hending
  | each _ _ ih =>
    obtain ⟨test, hmem⟩ := ih hending
    exact ⟨test, List.mem_cons_of_mem _ (by simpa using hmem)⟩
  | unfound _ => cases hending
  | @go _ _ test _ _ _ _ _ _ => exact ⟨test, List.mem_cons_self⟩
  | @stop _ test _ _ => exact ⟨test, List.mem_cons_self⟩

/-- Without a test, phases that are performed come to their end or fail. -/
theorem eq_true_of_perform {done : Bool} (h : ∀ test, .only test ∉ phases)
    (hrun : (perform act phases).run t = (.ok done, t')) : done = true := by
  obtain ⟨steps, ending, u, hfollows, hperform⟩ := exists_follows act phases t
  rw [hrun] at hperform
  cases ending with
  | finished =>
    cases hperform
    rfl
  | stopped =>
    obtain ⟨test, hmem⟩ := hfollows.exists_only
    exact absurd hmem (h test)
  | failed e => cases hperform

/-- What the steps preserve still holds, however the procedure ends. -/
theorem preserves {P : τ → Prop} (h : Follows act phases t steps ending t')
    (hsteps : ∀ step ∈ steps, (act step).Preserves P)
    (hfinds : ∀ find, .each find ∈ phases → find.Preserves P) (ht : P t) : P t' := by
  induction h with
  | nil => exact ht
  | one hrun _ ih =>
    rw [List.forall_mem_cons] at hsteps
    exact ih hsteps.2 (fun find hmem => hfinds find (List.mem_cons_of_mem _ hmem))
      (hsteps.1.of_run ht hrun)
  | fail hrun => exact (hsteps _ List.mem_cons_self).of_run ht hrun
  | each hrun _ ih =>
    have ht₁ := (hfinds _ List.mem_cons_self).of_run ht hrun
    refine ih hsteps (fun find hmem => hfinds find (List.mem_cons_of_mem _ ?_)) ht₁
    simpa using hmem
  | unfound hrun => exact (hfinds _ List.mem_cons_self).of_run ht hrun
  | go _ _ ih => exact ih hsteps (fun find hmem => hfinds find (List.mem_cons_of_mem _ hmem)) ht
  | stop _ => exact ht

end Follows

/-! ## Order -/

/-- What holds of every step that a phase may have. -/
def All (P : ε → Prop) : Phase τ ε → Prop
  | one step => P step
  | each find => ∀ t found t', find.run t = (.ok found, t') → ∀ step ∈ found, P step
  | only _ => True

theorem Full.forall {P : ε → Prop} (h : Full phases whole)
    (hall : ∀ phase ∈ phases, phase.All P) : ∀ step ∈ whole, P step := by
  induction h with
  | nil => exact List.forall_mem_nil P
  | one _ ih =>
    rw [List.forall_mem_cons] at hall ⊢
    exact ⟨hall.1, ih hall.2⟩
  | each hfind _ ih =>
    rw [List.forall_mem_cons] at hall
    rw [List.forall_mem_append]
    exact ⟨hall.1 _ _ _ hfind, ih hall.2⟩
  | unread _ ih => exact ih (List.forall_mem_cons.1 hall).2
  | only _ ih => exact ih (List.forall_mem_cons.1 hall).2

/-- The steps of phases come in the order of their ranks, which go from one bound up to but not
including another. -/
def Ordered (rank : ε → Nat) (low high : Nat) (phases : List (Phase τ ε)) : Prop :=
  low ≤ high ∧ ∀ whole, Full phases whole → whole.Pairwise (fun a b => rank a ≤ rank b) ∧
    ∀ step ∈ whole, low ≤ rank step ∧ rank step < high

namespace Ordered

variable {rank : ε → Nat} {low middle high : Nat}

theorem nil (h : low ≤ high) : Ordered rank low high ([] : List (Phase τ ε)) := by
  refine ⟨h, fun whole hfull => ?_⟩
  cases hfull
  exact ⟨.nil, List.forall_mem_nil _⟩

theorem of_all (h : ∀ phase ∈ phases, phase.All fun step => rank step = low) :
    Ordered rank low (low + 1) phases := by
  refine ⟨Nat.le_succ low, fun whole hfull => ?_⟩
  have hrank := hfull.forall h
  constructor
  · exact List.pairwise_of_forall_mem_list fun a ha b hb => by rw [hrank a ha, hrank b hb]
  · intro step hmem
    rw [hrank step hmem]
    exact ⟨le_rfl, Nat.lt_succ_self low⟩

theorem one (step : ε) :
    Ordered rank (rank step) (rank step + 1) ([.one step] : List (Phase τ ε)) :=
  of_all fun phase hmem => by rw [List.mem_singleton.1 hmem]; rfl

theorem append (h : Ordered rank low middle phases) (h' : Ordered rank middle high rest) :
    Ordered rank low high (phases ++ rest) := by
  refine ⟨h.1.trans h'.1, fun whole hfull => ?_⟩
  obtain ⟨first, last, rfl, hfirst, hlast⟩ := Full.append_iff.1 hfull
  obtain ⟨hsorted, hbounds⟩ := h.2 first hfirst
  obtain ⟨hsorted', hbounds'⟩ := h'.2 last hlast
  constructor
  · refine List.pairwise_append.2 ⟨hsorted, hsorted', fun a ha b hb => ?_⟩
    have hlt := (hbounds a ha).2
    have hle := (hbounds' b hb).1
    omega
  · intro step hmem
    have hle := h.1
    have hle' := h'.1
    rcases List.mem_append.1 hmem with hmem | hmem
    · have := hbounds step hmem
      omega
    · have := hbounds' step hmem
      omega

end Ordered

end Phase

end DocumentMapper
