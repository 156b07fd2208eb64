import DocumentMapper.Error

/-!
# Actions

An action works on a state and ends with a result or an error. A failed action keeps what it did
to the state before it failed, so the state comes back beside the outcome and not inside it.
An action on one part of a larger state becomes an action on the whole by `Action.within`.
-/

namespace DocumentMapper

@[ext]
structure Action (σ α : Type) where
  run : σ → Except Error α × σ

namespace Action

variable {σ τ α β : Type}

instance : Monad (Action σ) where
  pure a := ⟨fun s => (.ok a, s)⟩
  bind act next := ⟨fun s =>
    match act.run s with
    | (.ok a, s') => (next a).run s'
    | (.error e, s') => (.error e, s')⟩

instance : MonadExceptOf Error (Action σ) where
  throw e := ⟨fun s => (.error e, s)⟩
  tryCatch act handle := ⟨fun s =>
    match act.run s with
    | (.ok a, s') => (.ok a, s')
    | (.error e, s') => (handle e).run s'⟩

instance : MonadStateOf σ (Action σ) where
  get := ⟨fun s => (.ok s, s)⟩
  set s := ⟨fun _ => (.ok (), s)⟩
  modifyGet f := ⟨fun s => let (a, s') := f s; (.ok a, s')⟩

instance : Inhabited (Action σ α) := ⟨throw default⟩

/-- The outcome of a computation that has no state. -/
def ofExcept (outcome : Except Error α) : Action σ α :=
  ⟨fun s => (outcome, s)⟩

/-- An action on a part of a larger state. -/
def within (part : τ → σ) (replace : σ → τ → τ) (act : Action σ α) : Action τ α :=
  ⟨fun t => let (outcome, s) := act.run (part t); (outcome, replace s t)⟩

/-- An action on the first part of a pair. -/
def first (act : Action σ α) : Action (σ × τ) α :=
  within Prod.fst (fun s t => (s, t.2)) act

/-- An action on the second part of a pair. -/
def second (act : Action σ α) : Action (τ × σ) α :=
  within Prod.snd (fun s t => (t.1, s)) act

/-- Runs an action on a value of its own beside the state; the value as it was left is returned
whether the action succeeded or not. -/
def alongside (own : τ) (act : Action (τ × σ) α) : Action σ (Except Error α × τ) :=
  ⟨fun s => let (outcome, own', s') := act.run (own, s); (.ok (outcome, own'), s')⟩

@[simp] theorem run_pure (a : α) (s : σ) : (pure a : Action σ α).run s = (.ok a, s) := rfl

@[simp] theorem run_throw (e : Error) (s : σ) :
    (throw e : Action σ α).run s = (.error e, s) := rfl

@[simp] theorem run_get (s : σ) : (get : Action σ σ).run s = (.ok s, s) := rfl

@[simp] theorem run_set (s t : σ) : (set t : Action σ PUnit).run s = (.ok (), t) := rfl

@[simp] theorem run_ofExcept (outcome : Except Error α) (s : σ) :
    (ofExcept outcome : Action σ α).run s = (outcome, s) := rfl

theorem run_bind (act : Action σ α) (next : α → Action σ β) (s : σ) :
    (act >>= next).run s =
      match act.run s with
      | (.ok a, s') => (next a).run s'
      | (.error e, s') => (.error e, s') := rfl

theorem run_bind_ok {act : Action σ α} {next : α → Action σ β} {s s' : σ} {a : α}
    (h : act.run s = (.ok a, s')) : (act >>= next).run s = (next a).run s' := by
  rw [run_bind, h]

theorem run_bind_error {act : Action σ α} {next : α → Action σ β} {s s' : σ} {e : Error}
    (h : act.run s = (.error e, s')) : (act >>= next).run s = (.error e, s') := by
  rw [run_bind, h]

theorem run_bind_eq_ok {act : Action σ α} {next : α → Action σ β} {s s' : σ} {b : β} :
    (act >>= next).run s = (.ok b, s') ↔
      ∃ a s₁, act.run s = (.ok a, s₁) ∧ (next a).run s₁ = (.ok b, s') := by
  rw [run_bind]
  rcases act.run s with ⟨e | a, s₁⟩
  · simp
  · constructor
    · intro h
      exact ⟨a, s₁, rfl, h⟩
    · rintro ⟨a', s', he, h⟩
      cases he
      exact h

theorem run_bind_eq_error {act : Action σ α} {next : α → Action σ β} {s s' : σ} {e : Error} :
    (act >>= next).run s = (.error e, s') ↔
      act.run s = (.error e, s') ∨
        ∃ a s₁, act.run s = (.ok a, s₁) ∧ (next a).run s₁ = (.error e, s') := by
  rw [run_bind]
  rcases act.run s with ⟨e' | a, s₁⟩
  · simp
  · constructor
    · intro h
      exact .inr ⟨a, s₁, rfl, h⟩
    · rintro (⟨⟨⟩⟩ | ⟨a', s₂, he, h⟩)
      cases he
      exact h

theorem run_tryCatch_ok {act : Action σ α} {handle : Error → Action σ α} {s s' : σ} {a : α}
    (h : act.run s = (.ok a, s')) : (tryCatch act handle).run s = (.ok a, s') := by
  simp only [tryCatch, tryCatchThe, MonadExceptOf.tryCatch, h]

theorem run_tryCatch_error {act : Action σ α} {handle : Error → Action σ α} {s s' : σ} {e : Error}
    (h : act.run s = (.error e, s')) : (tryCatch act handle).run s = (handle e).run s' := by
  simp only [tryCatch, tryCatchThe, MonadExceptOf.tryCatch, h]

/-- An action whose failures are thrown again after something was done about them succeeds when it
does so without that. -/
theorem run_tryCatch_throw_eq_ok {act : Action σ α} {report : Error → Action σ Unit} {a : α}
    {s s' : σ} : (tryCatch act fun e => do report e; throw e).run s = (.ok a, s') ↔
      act.run s = (.ok a, s') := by
  rcases hact : act.run s with ⟨e | b, s₁⟩
  · rw [run_tryCatch_error hact]
    refine iff_of_false (fun h => ?_) (by simp)
    obtain ⟨⟨⟩, s₂, -, hthrow⟩ := run_bind_eq_ok.1 h
    cases hthrow
  · rw [run_tryCatch_ok hact]

instance : LawfulMonad (Action σ) :=
  LawfulMonad.mk' _
    (fun act => by
      ext s : 2
      show (act >>= fun a => pure (id a)).run s = act.run s
      rw [run_bind]
      split <;> simp_all)
    (fun _ _ => rfl)
    (fun act f g => by
      ext s : 2
      simp only [run_bind]
      cases act.run s with
      | mk outcome s' => cases outcome <;> rfl)

end Action

end DocumentMapper
