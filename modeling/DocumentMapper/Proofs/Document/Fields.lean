import DocumentMapper.Document.AtPath

/-!
# Fields of dictionaries

What stands under a text key after a dictionary was written to or erased from. Writing under
another key leaves a field as it is, whether that key is a text or not, and what was written is
among the entries of the dictionary, so that a dictionary never holds itself.
-/

namespace DocumentMapper

theorem Value.same_text_eq_false {k : Value} {name : String} (h : k ≠ .text name) :
    k.same (.text name) = false := by
  rw [Bool.eq_false_iff, ne_eq, same_text]
  exact h

theorem Value.isNull_eq_true {v : Value} : v.isNull = true ↔ v = .null := by
  cases v <;> simp [isNull]

namespace Document

variable {d : Document} {name other : String} {v : Value}

@[simp] theorem field?_nil (name : String) : field? [] name = none := rfl

@[simp] theorem field?_cons_self (name : String) (v : Value) (rest : Document) :
    field? ((.text name, v) :: rest) name = some v := by
  simp [field?, get?, Value.same_text]

theorem field?_cons_of_ne {k : Value} (h : k ≠ .text name) (v : Value) (rest : Document) :
    field? ((k, v) :: rest) name = field? rest name := by
  simp [field?, get?, Value.same_text_eq_false h]

@[simp] theorem field?_putField_self (d : Document) (name : String) (v : Value) :
    (d.putField name v).field? name = some v :=
  get?_put_text_self d name v

theorem field?_putField_of_ne (h : other ≠ name) :
    (d.putField name v).field? other = d.field? other :=
  get?_put_text_of_ne h

@[simp] theorem fieldOrNull_putField_self (d : Document) (name : String) (v : Value) :
    (d.putField name v).fieldOrNull name = v := by
  simp [fieldOrNull]

theorem field?_of_fieldOrNull (h : d.fieldOrNull name = v) (hv : v ≠ .null) :
    d.field? name = some v := by
  unfold fieldOrNull at h
  cases hf : d.field? name with
  | none =>
    rw [hf] at h
    exact absurd h.symm hv
  | some w =>
    rw [hf] at h
    exact congrArg some h

/-- A field that counts as present is there. -/
theorem field?_of_isTruthy (h : (d.fieldOrNull name).isTruthy = true) :
    d.field? name = some (d.fieldOrNull name) := by
  apply field?_of_fieldOrNull rfl
  intro hnull
  rw [hnull] at h
  cases h

theorem fieldOrNull_putField_of_ne (h : other ≠ name) :
    (d.putField name v).fieldOrNull other = d.fieldOrNull other := by
  rw [fieldOrNull, fieldOrNull, field?_putField_of_ne h]

theorem field?_put_of_ne {key : Value} (h : key ≠ .text name) :
    (put key v d).field? name = d.field? name := by
  induction d with
  | nil => exact field?_cons_of_ne h v []
  | cons e rest ih =>
    obtain ⟨k, old⟩ := e
    unfold put
    split
    · next hs =>
      have hkn : k ≠ .text name := by
        rintro rfl
        exact h (Value.text_same.1 hs)
      rw [field?_cons_of_ne hkn, field?_cons_of_ne hkn]
    · by_cases hkn : k = .text name
      · subst hkn
        rw [field?_cons_self, field?_cons_self]
      · rw [field?_cons_of_ne hkn, field?_cons_of_ne hkn, ih]

theorem get?_putField_of_ne {key : Value} (h : key ≠ .text name) :
    (d.putField name v).get? key = d.get? key := by
  have hother : (Value.text name).same key = false := by
    rw [Bool.eq_false_iff, ne_eq, Value.text_same]
    exact h
  induction d with
  | nil => simp [putField, put, get?, hother]
  | cons e rest ih =>
    obtain ⟨k, old⟩ := e
    unfold putField put
    split
    · next hk =>
      obtain rfl := Value.same_text.1 hk
      simp [get?, hother]
    · simp only [putField, get?, List.find?_cons] at ih ⊢
      split
      · rfl
      · exact ih

/-- A key that is no text is never that of a field. -/
theorem field?_put_of_isText {key : Value} (hk : key.isText = false) (name : String) :
    (put key v d).field? name = d.field? name := by
  refine field?_put_of_ne ?_
  rintro rfl
  simp [Value.isText] at hk

@[simp] theorem field?_eraseField_self (d : Document) (name : String) :
    (d.eraseField name).field? name = none := by
  unfold eraseField erase
  induction d with
  | nil => rfl
  | cons e rest ih =>
    obtain ⟨k, old⟩ := e
    by_cases hk : k = .text name
    · rw [List.filter_cons_of_neg (by simp [Value.same_text, hk]), ih]
    · rw [List.filter_cons_of_pos (by simp [Value.same_text_eq_false hk]),
        field?_cons_of_ne hk, ih]

theorem field?_eraseField_of_ne (h : other ≠ name) :
    (d.eraseField name).field? other = d.field? other := by
  unfold eraseField erase
  induction d with
  | nil => rfl
  | cons e rest ih =>
    obtain ⟨k, old⟩ := e
    by_cases hk : k = .text name
    · have ho : k ≠ .text other := by
        rintro rfl
        exact h (Value.text.inj hk)
      rw [List.filter_cons_of_neg (by simp [Value.same_text, hk]), field?_cons_of_ne ho, ih]
    · rw [List.filter_cons_of_pos (by simp [Value.same_text_eq_false hk])]
      by_cases ho : k = .text other
      · subst ho
        rw [field?_cons_self, field?_cons_self]
      · rw [field?_cons_of_ne ho, field?_cons_of_ne ho, ih]

/-- Writing what stands under a key changes nothing. -/
theorem putField_of_field? (h : d.field? name = some v) : d.putField name v = d := by
  induction d with
  | nil => cases h
  | cons e rest ih =>
    obtain ⟨k, old⟩ := e
    unfold putField put
    split
    · next hk =>
      obtain rfl := Value.same_text.1 hk
      rw [field?_cons_self] at h
      rw [Option.some.inj h]
    · next hk =>
      have hne : k ≠ .text name := fun he => hk (Value.same_text.2 he)
      rw [field?_cons_of_ne hne] at h
      exact congrArg ((k, old) :: ·) (ih h)

/-- Writing under a key once more leaves nothing of what was written before. -/
theorem put_put {key : Value} (hkey : key.same key = true) (v w : Value) (d : Document) :
    put key w (put key v d) = put key w d := by
  induction d with
  | nil => simp [put, hkey]
  | cons e rest ih =>
    obtain ⟨k, old⟩ := e
    by_cases hk : k.same key = true <;> simp [put, hk, ih]

theorem get?_put_self {key : Value} (hkey : key.same key = true) (v : Value) (d : Document) :
    get? (put key v d) key = some v := by
  induction d with
  | nil => simp [put, get?, hkey]
  | cons e rest ih =>
    obtain ⟨k, old⟩ := e
    by_cases hk : k.same key = true
    · simp [put, get?, hk]
    · simp only [put, hk, if_false, Bool.false_eq_true]
      simpa [get?, hk] using ih

theorem putField_putField (name : String) (v w : Value) (d : Document) :
    (d.putField name v).putField name w = d.putField name w :=
  put_put (Value.same_text.2 rfl) v w d

/-- What is written is among the entries afterwards. -/
theorem exists_mem_put (key v : Value) (d : Document) : ∃ k, (k, v) ∈ put key v d := by
  induction d with
  | nil => exact ⟨key, by simp [put]⟩
  | cons e rest ih =>
    obtain ⟨k, old⟩ := e
    unfold put
    split
    · exact ⟨k, by simp⟩
    · obtain ⟨k', hk'⟩ := ih
      exact ⟨k', List.mem_cons_of_mem _ hk'⟩

theorem isTruthy_put (key v : Value) (d : Document) : (Value.dict (put key v d)).isTruthy = true := by
  obtain ⟨k, hk⟩ := exists_mem_put key v d
  cases hput : put key v d with
  | nil =>
    rw [hput] at hk
    cases hk
  | cons => rfl

/-- Writing adds a key at the end if there is none like it. -/
theorem map_fst_put (key v : Value) (d : Document) :
    (put key v d).map (·.1) = d.map (·.1) ∨ (put key v d).map (·.1) = d.map (·.1) ++ [key] := by
  induction d with
  | nil => exact .inr rfl
  | cons e rest ih =>
    obtain ⟨k, old⟩ := e
    by_cases hk : k.same key = true
    · simp [put, hk]
    · simpa [put, hk] using ih

/-- A dictionary to which a value was written is not that value. -/
theorem dict_put_ne (key v : Value) (d : Document) : Value.dict (put key v d) ≠ v := by
  intro h
  obtain ⟨k, hk⟩ := exists_mem_put key v d
  have hlt := List.sizeOf_lt_of_mem hk
  have hsize := congrArg sizeOf h
  simp only [Value.dict.sizeOf_spec, Prod.mk.sizeOf_spec] at hlt hsize
  omega

theorem dict_putField_ne (name : String) (v : Value) (d : Document) :
    Value.dict (d.putField name v) ≠ v :=
  dict_put_ne _ v d

end Document

end DocumentMapper
