import DocumentMapper.Sync.FanOut

/-!
# Turns of a fan-out

The targets of a fan-out have their turns one after another. A turn ends with the target as its
treatment left it and perhaps with an error, which is reported before the next turn. The policy
says how many turns there are: one for every target, or none after the first that failed.

A fan-out gives what these turns amount to unless a report fails. A report that fails ends the
fan-out with an error of its own under either policy, and the remaining targets have no turn.
-/

namespace DocumentMapper.Sync

variable {σ : Type} {policy : Policy} {t : Treatment σ} {s s₁ s' : σ}

/-- A target as it was found and as it was left, and the reason if its treatment failed. -/
structure Turn where
  found : Record
  left : Record
  failure : Option Error

/-- The targets of the turns that failed, with the reasons. -/
def failures (turns : List Turn) : List (Record × Error) :=
  turns.filterMap fun turn => turn.failure.map (turn.left, ·)

/-- Turns that follow one another from a state to a later one, each failure reported before the
next turn. -/
inductive Turns (t : Treatment σ) : σ → List Turn → σ → Prop
  | none {s : σ} : Turns t s [] s
  | success {s s₁ s' : σ} {found left : Record} {turns : List Turn} :
      t.treat.run (found, s) = (.ok (), left, s₁) → Turns t s₁ turns s' →
      Turns t s (⟨found, left, .none⟩ :: turns) s'
  | failure {s s₁ s₂ s' : σ} {found left : Record} {e : Error} {turns : List Turn} :
      t.treat.run (found, s) = (.error e, left, s₁) → (t.report left e).run s₁ = (.ok (), s₂) →
      Turns t s₂ turns s' → Turns t s (⟨found, left, some e⟩ :: turns) s'

/-- The turns that a policy gives to some targets. Under that of aborting they end with the first
that fails. -/
def Policy.Gives (targets : List Record) (turns : List Turn) : Policy → Prop
  | .continue => turns.map Turn.found = targets
  | .abort =>
    turns.map Turn.found <+: targets ∧ (∀ turn ∈ turns.dropLast, turn.failure = none) ∧
      (failures turns = [] → turns.map Turn.found = targets)

/-- The turn of a target fails and the report of it fails too. -/
def Unreported (t : Treatment σ) (s : σ) (found : Record) (fault : Error) (s' : σ) : Prop :=
  ∃ left e s₁, t.treat.run (found, s) = (.error e, left, s₁) ∧
    (t.report left e).run s₁ = (.error fault, s')

/-- What a fan-out gives when every failure was reported. -/
def outcome (policy : Policy) (t : Treatment σ) (turns : List Turn) :
    Except Error (List (Value × Error)) :=
  match policy, failures turns with
  | .abort, (target, e) :: _ => .error (t.aborted target e)
  | _, failed => .ok (failed.map fun (target, e) => (target.id, e))

@[simp] theorem failures_nil : failures [] = [] := rfl

@[simp] theorem failures_cons_success (found left : Record) (turns : List Turn) :
    failures (⟨found, left, none⟩ :: turns) = failures turns := rfl

@[simp] theorem failures_cons_failure (found left : Record) (e : Error) (turns : List Turn) :
    failures (⟨found, left, some e⟩ :: turns) = (left, e) :: failures turns := rfl

/-! ## One turn -/

section

variable {found left : Record} {rest : List Record} {e fault : Error}

theorem run_fanOut_of_success (h : t.treat.run (found, s) = (.ok (), left, s₁)) :
    (fanOut policy t (found :: rest)).run s = (fanOut policy t rest).run s₁ := by
  rw [fanOut, Action.run_bind]
  simp only [Action.alongside, h]

theorem run_fanOut_of_failure (h : t.treat.run (found, s) = (.error e, left, s₁))
    (hr : (t.report left e).run s₁ = (.ok (), s')) :
    (fanOut policy t (found :: rest)).run s =
      match policy with
      | .abort => (.error (t.aborted left e), s')
      | .continue => (((left.id, e) :: ·) <$> fanOut .continue t rest).run s' := by
  rw [fanOut, Action.run_bind]
  simp only [Action.alongside, h]
  rw [Action.run_bind_ok hr]
  cases policy <;> rfl

theorem run_fanOut_of_unreported (h : Unreported t s found fault s') :
    (fanOut policy t (found :: rest)).run s = (.error fault, s') := by
  obtain ⟨left, e, s₁, ht, hr⟩ := h
  rw [fanOut, Action.run_bind]
  simp only [Action.alongside, ht]
  exact Action.run_bind_error hr

end

/-! ## All turns -/

variable {targets rest : List Record} {turns : List Turn}

theorem run_map {α β : Type} (f : α → β) (act : Action σ α) (s : σ) :
    (f <$> act).run s = (f <$> (act.run s).1, (act.run s).2) := by
  rw [map_eq_pure_bind, Action.run_bind]
  rcases act.run s with ⟨_ | a, s'⟩ <;> rfl

/-- After turns that did not end the fan-out it goes on with the remaining targets, and what
failed is put before what fails among them. -/
theorem Turns.run_append (h : Turns t s turns s₁) (hp : policy = .abort → failures turns = [])
    (rest : List Record) :
    (fanOut policy t (turns.map Turn.found ++ rest)).run s =
      (((failures turns).map (fun (target, e) => (target.id, e)) ++ ·) <$>
        fanOut policy t rest).run s₁ := by
  induction h with
  | none => simp
  | success ht _ ih =>
    rw [List.map_cons, List.cons_append, run_fanOut_of_success ht, ih hp, failures_cons_success]
  | failure ht hr _ ih =>
    cases policy with
    | abort => cases hp rfl
    | «continue» =>
      rw [List.map_cons, List.cons_append, run_fanOut_of_failure ht hr]
      simp only [run_map, ih nofun, failures_cons_failure, List.map_cons, List.cons_append,
        Functor.map_map]

/-- A report that fails ends a fan-out. -/
theorem Turns.run_unreported {found : Record} {fault : Error} (h : Turns t s turns s₁)
    (hp : policy = .abort → failures turns = []) (hu : Unreported t s₁ found fault s')
    (rest : List Record) :
    (fanOut policy t (turns.map Turn.found ++ found :: rest)).run s = (.error fault, s') := by
  rw [h.run_append hp, run_map, run_fanOut_of_unreported hu]
  rfl

theorem Turns.run_abort (h : Turns t s turns s') (hg : Policy.abort.Gives targets turns) :
    (fanOut .abort t targets).run s = (outcome .abort t turns, s') := by
  induction h generalizing targets with
  | none =>
    obtain ⟨-, -, hall⟩ := hg
    rw [← hall rfl]
    rfl
  | @success s s₁ s' found left turns ht hturns ih =>
    obtain ⟨⟨rest, rfl⟩, hlast, hall⟩ := hg
    rw [List.map_cons, List.cons_append, run_fanOut_of_success ht]
    refine ih ⟨⟨rest, rfl⟩, fun turn hmem => hlast turn ?_, fun hnone => ?_⟩
    · cases turns with
      | nil => cases hmem
      | cons next turns => exact List.mem_cons_of_mem _ hmem
    · simpa using hall hnone
  | @failure s s₁ s₂ s' found left e turns ht hr hturns =>
    obtain ⟨⟨rest, rfl⟩, hlast, -⟩ := hg
    -- A turn after one that failed would be against the policy.
    cases hturns with
    | none => exact run_fanOut_of_failure ht hr
    | success => cases hlast _ (List.mem_cons_self ..)
    | failure => cases hlast _ (List.mem_cons_self ..)

/-- A fan-out gives what its turns amount to. -/
theorem Turns.run_fanOut (h : Turns t s turns s') (hg : policy.Gives targets turns) :
    (fanOut policy t targets).run s = (outcome policy t turns, s') := by
  cases policy with
  | abort => exact h.run_abort hg
  | «continue» =>
    obtain rfl : turns.map Turn.found = targets := hg
    have hgoes : Policy.continue = .abort → failures turns = [] := nofun
    have hrun := h.run_append hgoes []
    rw [List.append_nil] at hrun
    rw [hrun, run_map]
    simp [fanOut, outcome, Functor.map, Except.map]

theorem Policy.Gives.success {found : Record} (hg : policy.Gives targets turns) (left : Record) :
    policy.Gives (found :: targets) (⟨found, left, none⟩ :: turns) := by
  cases policy with
  | «continue» => exact congrArg (found :: ·) hg
  | abort =>
    obtain ⟨hinitial, hlast, hall⟩ := hg
    refine ⟨(List.prefix_cons_inj found).2 hinitial, fun turn hmem => ?_,
      fun hnone => congrArg (found :: ·) (hall hnone)⟩
    cases turns with
    | nil => cases hmem
    | cons next turns =>
      rcases List.mem_cons.1 hmem with rfl | hmem
      · rfl
      · exact hlast turn hmem

/-- Every fan-out has the turns of its policy, or comes to a target whose failure cannot be
reported. -/
theorem exists_turns (policy : Policy) (t : Treatment σ) (targets : List Record) (s : σ) :
    (∃ turns s', Turns t s turns s' ∧ policy.Gives targets turns) ∨
    (∃ turns s₁ found rest fault s', Turns t s turns s₁ ∧
      (policy = .abort → failures turns = []) ∧ targets = turns.map Turn.found ++ found :: rest ∧
      Unreported t s₁ found fault s') := by
  induction targets generalizing s with
  | nil =>
    refine .inl ⟨[], s, .none, ?_⟩
    cases policy with
    | «continue» => rfl
    | abort => exact ⟨List.nil_prefix, nofun, fun _ => rfl⟩
  | cons found rest ih =>
    rcases ht : t.treat.run (found, s) with ⟨e | _, left, s₁⟩
    · rcases hr : (t.report left e).run s₁ with ⟨fault | _, s₂⟩
      · exact .inr ⟨[], s, found, rest, fault, s₂, .none, fun _ => rfl, rfl, left, e, s₁, ht, hr⟩
      · cases policy with
        | abort =>
          refine .inl ⟨[⟨found, left, some e⟩], s₂, .failure ht hr .none, ?_⟩
          exact ⟨⟨rest, rfl⟩, nofun, nofun⟩
        | «continue» =>
          rcases ih s₂ with ⟨turns, s', hturns, hg⟩ |
            ⟨turns, s₃, found', rest', fault, s', hturns, -, rfl, hu⟩
          · exact .inl ⟨_, s', .failure ht hr hturns, congrArg (found :: ·) hg⟩
          · exact .inr ⟨_, s₃, found', rest', fault, s', .failure ht hr hturns, nofun, rfl, hu⟩
    · rcases ih s₁ with ⟨turns, s', hturns, hg⟩ |
        ⟨turns, s₂, found', rest', fault, s', hturns, hp, rfl, hu⟩
      · exact .inl ⟨_, s', .success ht hturns, hg.success left⟩
      · exact .inr ⟨_, s₂, found', rest', fault, s', .success ht hturns, hp, rfl, hu⟩

end DocumentMapper.Sync
