import DocumentMapper.Value.Access

/-!
# Laws of equality

Values without changeable parts, which are those that can be keys of a dictionary, are equal in
either order. A value is the same as itself unless there is a record in it, which is the same as
nothing, so that what equals anything at all equals itself.
-/

namespace DocumentMapper

theorem Calendar.Moment.same_comm (a b : Calendar.Moment) : a.same b = b.same a := by
  unfold same
  cases a.offset <;> cases b.offset <;> simp [Bool.beq_comm]

theorem Calendar.Moment.same_self (a : Calendar.Moment) : a.same a = true := by
  unfold same
  cases a.offset <;> simp

/-- What has the value of an integer is not not-a-number. -/
theorem Number.isNotANumber_of_sameInt {n : Int} {x : Float} (h : sameInt n x = true) :
    isNotANumber x = false := by
  refine Bool.eq_false_iff.2 fun hnot => ?_
  have hbits : 2047 * Nat.pow 2 52 < x.toBits.toNat % Nat.pow 2 63 := by
    simpa [isNotANumber] using hnot
  have hbiased : x.toBits.toNat / Nat.pow 2 52 % Nat.pow 2 11 = 2047 := by
    simp only [Nat.pow_eq, Nat.reducePow] at hbits ⊢
    omega
  have hnone : Dyadic.ofFloat? x = none := if_pos hbiased
  rw [sameInt, hnone] at h
  cases h

namespace Value

theorem sameScalar_comm (a b : Value) : sameScalar a b = sameScalar b a := by
  cases a <;> cases b <;>
    simp [sameScalar, Bool.beq_comm, Number.sameFloat, Calendar.Moment.same_comm]

mutual

theorem same_comm : ∀ a b : Value, a.unhashable? = none → a.same b = b.same a
  | tuple xs, b, h => by
    cases b with
    | tuple ys =>
      simp only [same]
      exact sameItems_comm xs ys (by simpa [unhashable?] using h)
    | _ => simp [same, sameScalar]
  | stage name payload, b, h => by
    cases b with
    | stage other payload' =>
      have hpayload := same_comm payload payload' (by simpa [unhashable?] using h)
      simp only [same, hpayload, Bool.beq_comm]
    | _ => simp [same, sameScalar]
  | list _, _, h | dict _, _, h => by simp [unhashable?] at h
  | null, b, _ | bool _, b, _ | int _, b, _ | float _, b, _ | text _, b, _ | moment _, b, _
  | pattern _, b, _ | objectId _, b, _ | model _, b, _ | record _ _ _ _, b, _ => by
    cases b with
    | _ => simp only [same, sameScalar_comm]

theorem sameItems_comm : ∀ xs ys : List Value, unhashableItem? xs = none →
    sameItems xs ys = sameItems ys xs
  | [], ys, _ => by cases ys <;> simp [sameItems]
  | x :: xs, [], _ => by simp [sameItems]
  | x :: xs, y :: ys, h => by
    simp only [unhashableItem?, Option.or_eq_none_iff] at h
    simp only [sameItems, same_comm x y h.1, sameItems_comm xs ys h.2]

end

mutual

/-- Whether there is no record in a value. -/
def lacksRecords : Value → Bool
  | list items | tuple items => lacksRecordsItems items
  | dict entries => lacksRecordsEntries entries
  | stage _ payload => lacksRecords payload
  | record _ _ _ _ => false
  | _ => true

def lacksRecordsItems : List Value → Bool
  | [] => true
  | v :: rest => lacksRecords v && lacksRecordsItems rest

def lacksRecordsEntries : List (Value × Value) → Bool
  | [] => true
  | (k, v) :: rest => lacksRecords k && lacksRecords v && lacksRecordsEntries rest

end

mutual

theorem same_self : ∀ v : Value, v.lacksRecords = true → v.same v = true
  | list items, h | tuple items, h => by
    rw [same]
    exact sameItems_self items h
  | dict entries, h => by
    rw [same, beq_self_eq_true, Bool.true_and]
    exact sameEntries_of_subset entries entries h (List.Subset.refl entries)
  | stage name payload, h => by
    rw [same, beq_self_eq_true, Bool.true_and]
    exact same_self payload h
  | record _ _ _ _, h => by cases h
  | null, _ | bool _, _ | int _, _ | float _, _ | text _, _ | moment _, _ | pattern _, _
  | objectId _, _ | model _, _ => by
    simp [same, sameScalar, Number.sameFloat, Calendar.Moment.same_self]

theorem sameItems_self : ∀ items : List Value, lacksRecordsItems items = true →
    sameItems items items = true
  | [], _ => rfl
  | v :: rest, h => by
    obtain ⟨hv, hrest⟩ := (Bool.and_eq_true _ _).mp h
    rw [sameItems, same_self v hv, sameItems_self rest hrest, Bool.and_self]

theorem sameEntries_of_subset : ∀ entries all : List (Value × Value),
    lacksRecordsEntries entries = true → entries ⊆ all → sameEntries entries all = true
  | [], _, _, _ => rfl
  | (k, v) :: rest, all, h, hall => by
    simp only [lacksRecordsEntries, Bool.and_eq_true] at h
    obtain ⟨⟨hk, hv⟩, hrest⟩ := h
    rw [List.cons_subset] at hall
    rw [sameEntries, sameEntries_of_subset rest all hrest hall.2, Bool.and_true, List.any_eq_true]
    exact ⟨(k, v), hall.1, Bool.and_eq_true_iff.mpr ⟨same_self k hk, same_self v hv⟩⟩

end

mutual

/-- What is the same as something has no record in it. -/
theorem lacksRecords_of_same : ∀ a b : Value, a.same b = true → a.lacksRecords = true
  | list xs, b, h | tuple xs, b, h => by
    cases b <;> first | exact lacksRecordsItems_of_same xs _ h | cases h
  | dict entries, b, h => by
    cases b with
    | dict ys =>
      have hentries := (Bool.and_eq_true_iff.1 h).2
      exact lacksRecordsEntries_of_same entries ys hentries
    | _ => cases h
  | stage name payload, b, h => by
    cases b with
    | stage other payload' =>
      have hpayload := (Bool.and_eq_true_iff.1 h).2
      exact lacksRecords_of_same payload payload' hpayload
    | _ => cases h
  | record _ _ _ _, b, h => by cases b <;> cases h
  | null, _, _ | bool _, _, _ | int _, _, _ | float _, _, _ | text _, _, _ | moment _, _, _
  | pattern _, _, _ | objectId _, _, _ | model _, _, _ => rfl

theorem lacksRecordsItems_of_same : ∀ xs ys : List Value, sameItems xs ys = true →
    lacksRecordsItems xs = true
  | [], _, _ => rfl
  | _ :: _, [], h => by cases h
  | x :: xs, y :: ys, h => by
    obtain ⟨hx, hxs⟩ := Bool.and_eq_true_iff.1 h
    rw [lacksRecordsItems, lacksRecords_of_same x y hx, lacksRecordsItems_of_same xs ys hxs,
      Bool.and_self]

theorem lacksRecordsEntries_of_same : ∀ xs ys : List (Value × Value), sameEntries xs ys = true →
    lacksRecordsEntries xs = true
  | [], _, _ => rfl
  | (k, v) :: rest, ys, h => by
    obtain ⟨hany, hrest⟩ := Bool.and_eq_true_iff.1 h
    obtain ⟨⟨k', v'⟩, -, hentry⟩ := List.any_eq_true.1 hany
    obtain ⟨hk, hv⟩ := Bool.and_eq_true_iff.1 hentry
    rw [lacksRecordsEntries, lacksRecords_of_same k k' hk, lacksRecords_of_same v v' hv,
      lacksRecordsEntries_of_same rest ys hrest]
    rfl

end

/-- What equals something equals itself: it is not not-a-number and has no record in it. -/
theorem equal_self_of_equal {a b : Value} (h : a.equal b = true) : a.equal a = true := by
  cases a with
  | float x =>
    have hnumber : Number.isNotANumber x = false := by
      cases b with
      | float y => simpa using (Bool.and_eq_true_iff.1 h).2
      | bool n => exact Number.isNotANumber_of_sameInt h
      | int n => exact Number.isNotANumber_of_sameInt h
      | _ => cases h
    simp [equal, Number.sameFloat, hnumber]
  | _ => exact same_self _ (lacksRecords_of_same _ b h)

end Value

end DocumentMapper
