import DocumentMapper.Proofs.Procedure

/-!
# Actions that uphold a property

An action upholds a property of the state if the property still holds after it, whether it succeeds
or not; what it gives when it succeeds has a property of its own, which the actions after it may
rely on. An action on a part of the state upholds what it upholds of that part.
-/

namespace DocumentMapper.Action

variable {σ τ α β : Type} {P : σ → Prop} {A : τ → Prop} {Q : α → Prop} {R : β → Prop}
  {act : Action σ α} {s s' : σ}

/-- The property still holds after the action, and what the action gives has a property too. -/
def Upholds (P : σ → Prop) (act : Action σ α) (Q : α → Prop) : Prop :=
  ∀ s, P s → P (act.run s).2 ∧ ∀ a, (act.run s).1 = .ok a → Q a

/-- A property of a value of its own beside one of the state. -/
def Beside (A : τ → Prop) (P : σ → Prop) (t : τ × σ) : Prop :=
  A t.1 ∧ P t.2

theorem Preserves.upholds (h : Preserves P act) : Upholds P act fun _ => True :=
  fun s hs => ⟨h s hs, fun _ _ => trivial⟩

namespace Upholds

theorem preserves (h : Upholds P act Q) : Preserves P act :=
  fun s hs => (h s hs).1

theorem mono {Q' : α → Prop} (h : Upholds P act Q) (hQ : ∀ a, Q a → Q' a) : Upholds P act Q' :=
  fun s hs => ⟨(h s hs).1, fun a ha => hQ a ((h s hs).2 a ha)⟩

theorem pure {a : α} (ha : Q a) : Upholds P (Pure.pure a : Action σ α) Q := by
  intro s hs
  refine ⟨hs, fun b hb => ?_⟩
  cases hb
  exact ha

theorem throw (e : Error) : Upholds P (MonadExcept.throw e : Action σ α) Q :=
  fun _ hs => ⟨hs, fun _ h => nomatch h⟩

theorem ofExcept {outcome : Except Error α} (h : ∀ a, outcome = .ok a → Q a) :
    Upholds P (Action.ofExcept outcome) Q :=
  fun _ hs => ⟨hs, h⟩

theorem bind {next : α → Action σ β} (h : Upholds P act Q)
    (hnext : ∀ a, Q a → Upholds P (next a) R) : Upholds P (act >>= next) R := by
  intro s hs
  obtain ⟨hs₁, ha⟩ := h s hs
  rw [run_bind]
  rcases hact : act.run s with ⟨e | a, s₁⟩
  · rw [hact] at hs₁
    exact ⟨hs₁, fun _ h => nomatch h⟩
  · rw [hact] at hs₁ ha
    exact hnext a (ha a rfl) s₁ hs₁

/-- What is done after something that may have been left out. -/
theorem ite_bind {c : Prop} [Decidable c] {next : α → Action σ β} {rest : Action σ β}
    (h : Upholds P act Q) (hnext : ∀ a, next a = rest) (hrest : Upholds P rest R) :
    Upholds P (if c then act >>= next else rest) R := by
  split
  · exact h.bind fun a _ => hnext a ▸ hrest
  · exact hrest

/-- What is done after one of two actions. -/
theorem bind_ite {c : Prop} [Decidable c] {other : Action σ α} {next : α → Action σ β}
    (h : Upholds P act Q) (hother : Upholds P other Q) (hnext : ∀ a, Q a → Upholds P (next a) R) :
    Upholds P (if c then act >>= next else other >>= next) R := by
  split
  · exact h.bind hnext
  · exact hother.bind hnext

theorem map {f : α → β} (h : Upholds P act Q) (hf : ∀ a, Q a → R (f a)) :
    Upholds P (f <$> act) R := by
  rw [map_eq_pure_bind]
  exact h.bind fun a ha => pure (hf a ha)

protected theorem tryCatch {handle : Error → Action σ α} (h : Upholds P act Q)
    (hhandle : ∀ e, Upholds P (handle e) Q) :
    Upholds P (tryCatch act handle) Q := by
  intro s hs
  obtain ⟨hs₁, ha⟩ := h s hs
  rcases hact : act.run s with ⟨e | a, s₁⟩
  · rw [hact] at hs₁
    rw [run_tryCatch_error hact]
    exact hhandle e s₁ hs₁
  · rw [hact] at hs₁ ha
    rw [run_tryCatch_ok hact]
    exact ⟨hs₁, ha⟩

theorem get : Upholds P (MonadState.get : Action σ σ) P := by
  intro s hs
  refine ⟨hs, fun t ht => ?_⟩
  cases ht
  exact hs

theorem set {t : σ} (ht : P t) : Upholds P (MonadState.set t : Action σ Unit) fun _ => True :=
  fun _ _ => ⟨ht, fun _ _ => trivial⟩

protected theorem modify {f : σ → σ} (h : ∀ s, P s → P (f s)) :
    Upholds P (modify f : Action σ PUnit) fun _ => True :=
  fun s hs => ⟨h s hs, fun _ _ => trivial⟩

theorem forM {γ : Type} {f : γ → Action σ PUnit} {l : List γ}
    (h : ∀ x ∈ l, Upholds P (f x) fun _ => True) : Upholds P (l.forM f) fun _ => True :=
  (Preserves.forM fun x hx => (h x hx).preserves).upholds

/-! ## Parts of the state -/

theorem first {act : Action τ α} (h : Upholds A act Q) :
    Upholds (Beside A P) (Action.first act) Q :=
  fun t ht => ⟨⟨(h t.1 ht.1).1, ht.2⟩, (h t.1 ht.1).2⟩

theorem second (h : Upholds P act Q) : Upholds (Beside A P) (Action.second act) Q :=
  fun t ht => ⟨⟨ht.1, (h t.2 ht.2).1⟩, (h t.2 ht.2).2⟩

theorem alongside {own : τ} {act : Action (τ × σ) α} (hown : A own)
    (h : Upholds (Beside A P) act Q) :
    Upholds P (Action.alongside own act) fun r => A r.2 ∧ ∀ a, r.1 = .ok a → Q a := by
  intro s hs
  obtain ⟨⟨hown', hs'⟩, ha⟩ := h (own, s) ⟨hown, hs⟩
  refine ⟨hs', fun r hr => ?_⟩
  cases hr
  exact ⟨hown', ha⟩

end Upholds

end DocumentMapper.Action
