import DocumentMapper.Proofs.Document.Update
import DocumentMapper.Proofs.Number.Units
import DocumentMapper.Value.Number

/-!
# Equality as an equivalence

Equality of values goes across the kinds of numbers, and dictionaries are compared entry by entry in
one direction only. It is transitive nevertheless: numbers of any kinds because what they are
compared with is exact, dictionaries because the entries are followed from one to the next. It is
symmetric where the first value is one that can come up: no dictionary in it has a key twice or a
key that cannot be one. Then dictionaries of the same size that have the entries of the first have
no others.
-/

namespace DocumentMapper

theorem Calendar.Moment.same_trans {a b c : Calendar.Moment} (h : a.same b = true)
    (h' : b.same c = true) : a.same c = true := by
  unfold same at *
  cases ha : a.offset <;> cases hb : b.offset <;> cases hc : c.offset <;> simp_all

namespace Value

open Number

/-! ## Numbers -/

/-- Equality of numbers of any kinds. -/
def Numeric.same : Numeric → Numeric → Bool
  | .whole m, .whole n => m == n
  | .whole m, .real y => sameInt m y
  | .real x, .whole n => sameInt n x
  | .real x, .real y => sameFloat x y

theorem Numeric.same_trans {x y z : Numeric} (h : x.same y = true) (h' : y.same z = true) :
    x.same z = true := by
  cases x with
  | whole m =>
    cases y with
    | whole n =>
      obtain rfl : m = n := beq_iff_eq.1 h
      exact h'
    | real x =>
      cases z with
      | whole k => exact beq_iff_eq.2 (eq_of_sameInt h h')
      | real z => exact sameInt_of_sameFloat h h'
  | real x =>
    cases y with
    | whole n =>
      cases z with
      | whole k =>
        obtain rfl : n = k := beq_iff_eq.1 h'
        exact h
      | real z => exact sameFloat_of_sameInt h h'
    | real y =>
      cases z with
      | whole k => exact sameInt_of_sameFloat h' (sameFloat_comm x y ▸ h)
      | real z =>
        have heq : identityBits x = identityBits y := beq_iff_eq.1 h
        have heq' : identityBits y = identityBits z := beq_iff_eq.1 h'
        exact beq_iff_eq.2 (heq.trans heq')

/-! ## Values without parts -/

/-- A number equals other numbers only. -/
theorem sameScalar_numeric {a b : Value} {x : Numeric} (ha : a.numeric? = some x) :
    sameScalar a b = true ↔ ∃ y, b.numeric? = some y ∧ x.same y = true := by
  cases a <;> cases ha <;> cases b <;> simp [sameScalar, numeric?, Numeric.same, ofTruth]
  next a b => cases a <;> cases b <;> decide

/-- What is no number equals itself only, or it is a moment. -/
theorem sameScalar_other {a b : Value} (ha : a.numeric? = none) (h : sameScalar a b = true) :
    b = a ∨ ∃ m m', a = .moment m ∧ b = .moment m' ∧ m.same m' = true := by
  cases a <;> cases ha <;> cases b <;> simp_all [sameScalar]

theorem sameScalar_trans {a b c : Value} (h : sameScalar a b = true) (h' : sameScalar b c = true) :
    sameScalar a c = true := by
  cases ha : a.numeric? with
  | some x =>
    obtain ⟨y, hb, hxy⟩ := (sameScalar_numeric ha).1 h
    obtain ⟨z, hc, hyz⟩ := (sameScalar_numeric hb).1 h'
    exact (sameScalar_numeric ha).2 ⟨z, hc, Numeric.same_trans hxy hyz⟩
  | none =>
    obtain rfl | ⟨m, m', rfl, rfl, hm⟩ := sameScalar_other ha h
    · exact h'
    · obtain rfl | ⟨k, k', ⟨⟩, rfl, hk⟩ := sameScalar_other rfl h'
      · exact h
      · exact Calendar.Moment.same_trans hm hk

/-! ## Transitivity -/

theorem sameEntries_iff {xs ys : Document} : sameEntries xs ys = true ↔
    ∀ e ∈ xs, ∃ e' ∈ ys, e.1.same e'.1 = true ∧ e.2.same e'.2 = true := by
  induction xs with
  | nil => simp [sameEntries]
  | cons e rest ih => simp [sameEntries, ih]

/-- What a value without parts equals has no parts either. -/
theorem same_eq_sameScalar {a b : Value} (h : sameScalar a b = true) (c : Value) :
    b.same c = sameScalar b c := by
  cases a <;> cases b <;> first | (cases c <;> rfl) | cases h

mutual

theorem same_trans : ∀ a b c : Value, a.same b = true → b.same c = true → a.same c = true
  | list xs, b, c, h, h' => by
    cases b with
    | list ys =>
      cases c with
      | list zs => exact sameItems_trans xs ys zs h h'
      | _ => cases h'
    | _ => cases h
  | tuple xs, b, c, h, h' => by
    cases b with
    | tuple ys =>
      cases c with
      | tuple zs => exact sameItems_trans xs ys zs h h'
      | _ => cases h'
    | _ => cases h
  | dict xs, b, c, h, h' => by
    cases b with
    | dict ys =>
      cases c with
      | dict zs =>
        obtain ⟨hlength, hentries⟩ := Bool.and_eq_true_iff.1 h
        obtain ⟨hlength', hentries'⟩ := Bool.and_eq_true_iff.1 h'
        rw [beq_iff_eq] at hlength hlength'
        rw [same, hlength.trans hlength', beq_self_eq_true, Bool.true_and]
        exact sameEntries_trans xs ys zs hentries hentries'
      | _ => cases h'
    | _ => cases h
  | stage name payload, b, c, h, h' => by
    cases b with
    | stage name' payload' =>
      cases c with
      | stage name'' payload'' =>
        obtain ⟨hname, hpayload⟩ := Bool.and_eq_true_iff.1 h
        obtain ⟨hname', hpayload'⟩ := Bool.and_eq_true_iff.1 h'
        rw [beq_iff_eq] at hname hname'
        rw [same, hname.trans hname', beq_self_eq_true, Bool.true_and]
        exact same_trans payload payload' payload'' hpayload hpayload'
      | _ => cases h'
    | _ => cases h
  | null, b, c, h, h' | bool _, b, c, h, h' | int _, b, c, h, h' | float _, b, c, h, h'
  | text _, b, c, h, h' | moment _, b, c, h, h' | pattern _, b, c, h, h'
  | objectId _, b, c, h, h' | model _, b, c, h, h' | record _ _ _ _, b, c, h, h' => by
    rw [same] at h ⊢
    · rw [same_eq_sameScalar h] at h'
      exact sameScalar_trans h h'
    all_goals nofun

theorem sameItems_trans : ∀ xs ys zs : List Value, sameItems xs ys = true →
    sameItems ys zs = true → sameItems xs zs = true
  | [], ys, zs, h, h' => by
    cases ys with
    | nil => exact h'
    | cons => cases h
  | x :: xs, [], _, h, _ => by cases h
  | x :: xs, y :: ys, [], _, h' => by cases h'
  | x :: xs, y :: ys, z :: zs, h, h' => by
    obtain ⟨hx, hxs⟩ := Bool.and_eq_true_iff.1 h
    obtain ⟨hy, hys⟩ := Bool.and_eq_true_iff.1 h'
    rw [sameItems, same_trans x y z hx hy, sameItems_trans xs ys zs hxs hys, Bool.and_self]

theorem sameEntries_trans : ∀ xs ys zs : Document, sameEntries xs ys = true →
    sameEntries ys zs = true → sameEntries xs zs = true
  | [], _, _, _, _ => rfl
  | (k, v) :: rest, ys, zs, h, h' => by
    obtain ⟨hany, hrest⟩ := Bool.and_eq_true_iff.1 h
    rw [sameEntries, sameEntries_trans rest ys zs hrest h', Bool.and_true]
    obtain ⟨⟨k', v'⟩, hmem, hentry⟩ := List.any_eq_true.1 hany
    obtain ⟨hk, hv⟩ := Bool.and_eq_true_iff.1 hentry
    obtain ⟨⟨k'', v''⟩, hmem', hk', hv'⟩ := sameEntries_iff.1 h' _ hmem
    rw [List.any_eq_true]
    have hentry' := Bool.and_eq_true_iff.2
      ⟨same_trans k k' k'' hk hk', same_trans v v' v'' hv hv'⟩
    exact ⟨_, hmem', hentry'⟩

end

/-! ## Symmetry -/

mutual

/-- A value of which every dictionary can come up: its keys can be keys, and no two of them are the
same. -/
def Sound : Value → Prop
  | list items | tuple items => SoundItems items
  | dict entries => Document.Distinct entries ∧ SoundEntries entries
  | stage _ payload => Sound payload
  | _ => True

def SoundItems : List Value → Prop
  | [] => True
  | v :: rest => Sound v ∧ SoundItems rest

def SoundEntries : List (Value × Value) → Prop
  | [] => True
  | (k, v) :: rest => k.unhashable? = none ∧ Sound v ∧ SoundEntries rest

end

/-- As many things on either side, each one on the left related to one on the right, and no two of
them to the same: then each one on the right is related to one on the left. -/
theorem exists_left_of_forall_right {α β : Type} {R : α → β → Prop} {xs : List α} {ys : List β}
    (hlength : xs.length = ys.length) (hright : ∀ x ∈ xs, ∃ y ∈ ys, R x y)
    (hapart : xs.Pairwise fun x x' => ∀ y, R x y → ¬ R x' y) :
    ∀ y ∈ ys, ∃ x ∈ xs, R x y := by
  induction xs generalizing ys with
  | nil =>
    intro y hy
    rw [List.length_eq_zero_iff.1 hlength.symm] at hy
    cases hy
  | cons x xs ih =>
    obtain ⟨y₀, hy₀, hx⟩ := hright x List.mem_cons_self
    obtain ⟨first, last, rfl⟩ := List.append_of_mem hy₀
    obtain ⟨hhead, hapart⟩ := List.pairwise_cons.1 hapart
    have hrest : ∀ y ∈ first ++ last, ∃ x ∈ xs, R x y := by
      refine ih (by simp at hlength ⊢; omega) ?_ hapart
      intro x' hx'
      obtain ⟨y, hy, hR⟩ := hright x' (List.mem_cons_of_mem _ hx')
      rw [List.mem_append, List.mem_cons] at hy
      rcases hy with hy | rfl | hy
      · exact ⟨y, List.mem_append_left _ hy, hR⟩
      · exact absurd hR (hhead x' hx' y hx)
      · exact ⟨y, List.mem_append_right _ hy, hR⟩
    intro y hy
    rw [List.mem_append, List.mem_cons] at hy
    by_cases heq : y = y₀
    · exact ⟨x, List.mem_cons_self, heq ▸ hx⟩
    · obtain ⟨x', hx', hR⟩ := hrest y (List.mem_append.2 (by tauto))
      exact ⟨x', List.mem_cons_of_mem _ hx', hR⟩

mutual

theorem same_symm : ∀ a b : Value, a.Sound → a.same b = true → b.same a = true
  | list xs, b, hsound, h => by
    cases b with
    | list ys => exact sameItems_symm xs ys hsound h
    | _ => cases h
  | tuple xs, b, hsound, h => by
    cases b with
    | tuple ys => exact sameItems_symm xs ys hsound h
    | _ => cases h
  | dict xs, b, hsound, h => by
    cases b with
    | dict ys =>
      obtain ⟨hdistinct, hentries⟩ := hsound
      obtain ⟨hlength, hall⟩ := Bool.and_eq_true_iff.1 h
      rw [beq_iff_eq] at hlength
      have hsymm := sameEntry_symm xs hentries
      have hapart : xs.Pairwise fun x x' => ∀ y : Value × Value,
          x.1.same y.1 = true ∧ x.2.same y.2 = true →
            ¬ (x'.1.same y.1 = true ∧ x'.2.same y.2 = true) := by
        refine (List.pairwise_map.1 hdistinct).imp_of_mem ?_
        rintro x x' - hx' hother y ⟨hk, -⟩ ⟨hk', hv'⟩
        have hback := (hsymm x' hx' y.1 y.2 hk' hv').1
        exact Bool.eq_false_iff.1 hother (same_trans _ _ _ hk hback)
      rw [same, hlength, beq_self_eq_true, Bool.true_and, sameEntries_iff]
      intro y hy
      obtain ⟨x, hx, hk, hv⟩ :=
        exists_left_of_forall_right hlength (sameEntries_iff.1 hall) hapart y hy
      exact ⟨x, hx, hsymm x hx y.1 y.2 hk hv⟩
    | _ => cases h
  | stage name payload, b, hsound, h => by
    cases b with
    | stage name' payload' =>
      obtain ⟨hname, hpayload⟩ := Bool.and_eq_true_iff.1 h
      rw [beq_iff_eq] at hname
      rw [same, hname, beq_self_eq_true, Bool.true_and]
      exact same_symm payload payload' hsound hpayload
    | _ => cases h
  | null, b, _, h | bool _, b, _, h | int _, b, _, h | float _, b, _, h | text _, b, _, h
  | moment _, b, _, h | pattern _, b, _, h | objectId _, b, _, h | model _, b, _, h
  | record _ _ _ _, b, _, h => by
    rw [same_comm _ _ rfl] at h
    exact h

theorem sameItems_symm : ∀ xs ys : List Value, SoundItems xs → sameItems xs ys = true →
    sameItems ys xs = true
  | [], [], _, _ => rfl
  | [], y :: ys, _, h => by cases h
  | x :: xs, [], _, h => by cases h
  | x :: xs, y :: ys, hsound, h => by
    obtain ⟨hx, hxs⟩ := Bool.and_eq_true_iff.1 h
    rw [sameItems, same_symm x y hsound.1 hx, sameItems_symm xs ys hsound.2 hxs, Bool.and_self]

/-- Entries of the keys and the values that they are the same as. -/
theorem sameEntry_symm : ∀ xs : List (Value × Value), SoundEntries xs → ∀ e ∈ xs,
    ∀ k v, e.1.same k = true → e.2.same v = true → k.same e.1 = true ∧ v.same e.2 = true
  | [], _, _, h => nomatch h
  | (k, v) :: rest, hsound, e, hmem => by
    intro k' v' hk hv
    rcases List.mem_cons.1 hmem with rfl | hmem
    · exact ⟨same_comm k k' hsound.1 ▸ hk, same_symm v v' hsound.2.1 hv⟩
    · exact sameEntry_symm rest hsound.2.2 e hmem k' v' hk hv

end

/-- Values that are the same are the same as the same values. -/
theorem same_congr {a b : Value} (ha : a.Sound) (h : a.same b = true) (c : Value) :
    a.same c = b.same c := by
  rw [Bool.eq_iff_iff]
  exact ⟨same_trans b a c (same_symm a b ha h), same_trans a b c h⟩

end Value

end DocumentMapper
