import DocumentMapper.Error

/-!
# Computations that may fail

A computation of several steps succeeds exactly if each step does. These are the two forms in
which later proofs take such a computation apart: one step and the rest of it, and the first of a
list of steps that a value goes through in turn.
-/

namespace DocumentMapper.Outcome

variable {ε α β : Type}

theorem bind_eq_ok {first : Except ε α} {next : α → Except ε β} {b : β} :
    (first >>= next) = .ok b ↔ ∃ a, first = .ok a ∧ next a = .ok b := by
  cases first with
  | error e => simp [bind, Except.bind]
  | ok a => simp [bind, Except.bind]

theorem bind_eq_error {first : Except ε α} {next : α → Except ε β} {e : ε} :
    (first >>= next) = .error e ↔
      first = .error e ∨ ∃ a, first = .ok a ∧ next a = .error e := by
  cases first with
  | error e' => simp [bind, Except.bind]
  | ok a => simp [bind, Except.bind]

/-- What is made of something fails exactly if it is not there. -/
theorem elim_eq_error {found : Option α} {f : α → β} {e e' : ε} :
    found.elim (Except.error e) (fun a => Except.ok (f a)) = .error e' ↔
      found = none ∧ e = e' := by
  cases found <;> simp

theorem mapError_eq_error {δ : Type} {first : Except ε α} {f : ε → δ} {e : δ} :
    first.mapError f = .error e ↔ ∃ fault, first = .error fault ∧ f fault = e := by
  cases first with
  | error fault =>
    constructor
    · intro h
      exact ⟨fault, rfl, Except.error.inj h⟩
    · rintro ⟨fault', hfault, rfl⟩
      cases hfault
      rfl
  | ok a =>
    constructor
    · intro h
      cases h
    · rintro ⟨_, h, -⟩
      cases h

theorem mapError_eq_ok {δ : Type} {first : Except ε α} {f : ε → δ} {a : α} :
    first.mapError f = .ok a ↔ first = .ok a := by
  cases first with
  | error fault => exact ⟨nofun, nofun⟩
  | ok b => exact ⟨fun h => congrArg Except.ok (Except.ok.inj h),
      fun h => congrArg Except.ok (Except.ok.inj h)⟩

theorem map_eq_ok {first : Except ε α} {f : α → β} {b : β} :
    f <$> first = .ok b ↔ ∃ a, first = .ok a ∧ f a = b := by
  cases first with
  | error e => simp [Functor.map, Except.map]
  | ok a => simp [Functor.map, Except.map]

theorem exists_bind_eq_ok {first : Except ε α} {next : α → Except ε β} :
    (∃ b, (first >>= next) = .ok b) ↔ ∃ a, first = .ok a ∧ ∃ b, next a = .ok b := by
  simp only [bind_eq_ok]
  rw [exists_comm]
  simp only [exists_and_left]

theorem foldlM_cons_eq_ok {step : β → α → Except ε β} {a : α} {rest : List α} {b b' : β} :
    (a :: rest).foldlM step b = .ok b' ↔
      ∃ b₁, step b a = .ok b₁ ∧ rest.foldlM step b₁ = .ok b' := by
  rw [List.foldlM_cons, bind_eq_ok]

/-- Everything in a list that was computed element by element was computed from an element. -/
theorem exists_of_mem_mapM {f : α → Except ε β} {l : List α} {l' : List β} {b : β}
    (h : l.mapM f = .ok l') (hb : b ∈ l') : ∃ a ∈ l, f a = .ok b := by
  induction l generalizing l' with
  | nil =>
    rw [List.mapM_nil] at h
    cases h
    cases hb
  | cons a l ih =>
    rw [List.mapM_cons] at h
    obtain ⟨c, hc, h⟩ := bind_eq_ok.1 h
    obtain ⟨rest, hrest, h⟩ := bind_eq_ok.1 h
    cases h
    rcases List.mem_cons.1 hb with rfl | hb
    · exact ⟨a, List.mem_cons_self, hc⟩
    · obtain ⟨a', hmem, ha'⟩ := ih hrest hb
      exact ⟨a', List.mem_cons_of_mem _ hmem, ha'⟩

theorem mapM_congr {f g : α → Except ε β} {l : List α} (h : ∀ a ∈ l, f a = g a) :
    l.mapM f = l.mapM g := by
  induction l with
  | nil => rfl
  | cons a l ih =>
    rw [List.forall_mem_cons] at h
    rw [List.mapM_cons, List.mapM_cons, h.1, ih h.2]

/-- What is computed element by element fails at the first element at which it does. -/
theorem mapM_eq_error {f : α → Except ε β} {l : List α} {e : ε} :
    l.mapM f = .error e ↔ ∃ front a back, l = front ++ a :: back ∧
      (∀ u ∈ front, ∃ w, f u = .ok w) ∧ f a = .error e := by
  induction l with
  | nil =>
    refine iff_of_false nofun ?_
    rintro ⟨front, a, back, hl, -⟩
    simp at hl
  | cons x rest ih =>
    rw [List.mapM_cons, bind_eq_error]
    constructor
    · rintro (hx | ⟨w, hx, h⟩)
      · exact ⟨[], x, rest, rfl, List.forall_mem_nil _, hx⟩
      · obtain hrest | ⟨ws, -, h⟩ := bind_eq_error.1 h
        · obtain ⟨front, a, back, rfl, hfront, ha⟩ := ih.1 hrest
          exact ⟨x :: front, a, back, rfl, List.forall_mem_cons.2 ⟨⟨w, hx⟩, hfront⟩, ha⟩
        · cases h
    · rintro ⟨front, a, back, hl, hfront, ha⟩
      cases front with
      | nil =>
        obtain ⟨rfl, rfl⟩ := List.cons.inj hl
        exact .inl ha
      | cons y front =>
        obtain ⟨rfl, rfl⟩ := List.cons.inj hl
        obtain ⟨⟨w, hw⟩, hfront⟩ := List.forall_mem_cons.1 hfront
        exact .inr ⟨w, hw, bind_eq_error.2 (.inl (ih.2 ⟨front, a, back, rfl, hfront, ha⟩))⟩

/-- A list that is computed element by element comes out as it is exactly if each element does. -/
theorem mapM_eq_self_iff {f : α → Except ε α} {l : List α} :
    l.mapM f = .ok l ↔ ∀ a ∈ l, f a = .ok a := by
  induction l with
  | nil => simp [pure, Except.pure]
  | cons a l ih =>
    rw [List.mapM_cons, List.forall_mem_cons, ← ih, bind_eq_ok]
    constructor
    · rintro ⟨b, hb, h⟩
      obtain ⟨rest, hrest, h⟩ := bind_eq_ok.1 h
      cases h
      exact ⟨hb, hrest⟩
    · rintro ⟨ha, hl⟩
      exact ⟨a, ha, bind_eq_ok.2 ⟨l, hl, rfl⟩⟩

theorem foldlM_nil_eq_ok {step : β → α → Except ε β} {b b' : β} :
    ([] : List α).foldlM step b = .ok b' ↔ b = b' := by
  simp [pure, Except.pure]

end DocumentMapper.Outcome
