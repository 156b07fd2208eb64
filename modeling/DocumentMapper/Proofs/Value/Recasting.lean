import DocumentMapper.Model.Record
import DocumentMapper.Proofs.Json.Lengths
import DocumentMapper.Proofs.Value.Casts
import Mathlib.Data.List.DropRight

/-!
# Casting again

Most casts leave alone what they have made. The point of a location is not taken for one, since a
point is asked for its first two parts as if it were a list. What a text holds as JSON need not be
an object or an array at all: a text goes on being read as JSON, and null and the empty value of
another kind become the empty value of the kind that is wanted.
-/

namespace DocumentMapper

open Calendar Outcome

theorem Text.trimBoth_trimBoth (p : Char → Bool) (cs : List Char) :
    trimBoth p (trimBoth p cs) = trimBoth p cs := by
  have hleft : trimBoth p cs <+: cs.dropWhile p := List.rdropWhile_prefix p _
  have hfront : (trimBoth p cs).dropWhile p = trimBoth p cs := by
    rw [List.dropWhile_eq_self_iff]
    intro hpos
    have hfirst : 0 < (cs.dropWhile p).length := Nat.lt_of_lt_of_le hpos hleft.length_le
    rw [hleft.getElem hpos]
    exact List.dropWhile_eq_self_iff.1 (List.dropWhile_idempotent p _) hfirst
  calc trimBoth p (trimBoth p cs)
    _ = (trimBoth p cs).rdropWhile p := by rw [trimBoth, hfront]; rfl
    _ = trimBoth p cs := List.rdropWhile_idempotent p _

theorem Text.trim_trim (s : String) : trim (trim s) = trim s := by
  simp only [trim, String.toList_ofList, trimBoth_trimBoth]

variable {v w : Value} {kind : CastKind}

/-- Whether a cast leaves alone what it may have made. -/
def CastKind.keeps : CastKind → Value → Bool
  | .location, w => w.isNull
  | .object, .null | .object, .text _ | .object, .list [] => false
  | .array, .null | .array, .text _ | .array, .dict [] => false
  | _, _ => true

namespace Value

theorem isList_iff : v.isList = true ↔ ∃ items, v = list items := by
  cases v <;> simp [isList]

theorem readJson_ne_self (s : String) : readJson s ≠ .ok (.text s) := by
  intro h
  have := Json.length_of_read (mapError_eq_ok.1 h)
  omega

/-! ## Kinds of scalars -/

theorem cast_string_again (h : v.cast .string = .ok w) : w.cast .string = .ok w := by
  cases h
  by_cases hempty : v.isEmpty = true
  · rw [if_pos hempty]
    rfl
  · have htrim : Text.trim (text (Text.trim v.display)).display = Text.trim v.display :=
      Text.trim_trim _
    rw [if_neg hempty, cast, htrim]
    by_cases hblank : (text (Text.trim v.display)).isEmpty = true
    · have hnone : Text.trim v.display = "" := by simpa [isEmpty] using hblank
      rw [if_pos hblank, hnone]
    · rw [if_neg hblank]

theorem cast_number_again (h : v.cast .number = .ok w) : w.cast .number = .ok w := by
  obtain ⟨n, rfl⟩ | ⟨x, rfl⟩ := number_of_cast h
  · rfl
  · rfl

theorem cast_boolean_again (h : v.cast .boolean = .ok w) : w.cast .boolean = .ok w := by
  cases h
  generalize (!v.isEmpty && v.toBoolean) = b
  cases b <;> rfl

theorem cast_date_again (h : v.cast .date = .ok w) : w.cast .date = .ok w := by
  obtain rfl | ⟨m, rfl, hutc⟩ := offset_of_parseMoment h
  · rfl
  · have hparse : (moment m).parseMoment = moment <$> m.toUtc := by
      unfold parseMoment
      rfl
    rw [cast, hparse, Moment.toUtc_self hutc]
    rfl

/-! ## Kinds with parts -/

theorem cast_location_again (h : v.cast .location = .ok w) :
    w.cast .location = .ok w ↔ w = .null := by
  obtain rfl | ⟨x, y, rfl⟩ := point_of_cast h
  · exact iff_of_true rfl rfl
  · -- A point has no part under the number zero.
    refine iff_of_false (fun h => ?_) Value.noConfusion
    cases h

/-- The objects that are left alone are all values but null, texts and the empty list. -/
theorem cast_object_self (w : Value) :
    w.cast .object = .ok w ↔ CastKind.object.keeps w = true := by
  cases w with
  | null =>
    refine iff_of_false (fun h => ?_) Bool.false_ne_true
    cases h
  | text s =>
    refine iff_of_false (fun h => ?_) Bool.false_ne_true
    simp only [cast] at h
    split at h
    · cases h
    · have hread : (readJson s).toOption.getD (dict []) = text s := Except.ok.inj h
      cases hjson : readJson s with
      | error e =>
        rw [hjson] at hread
        cases hread
      | ok v =>
        rw [hjson] at hread
        exact readJson_ne_self s (hjson.trans (congrArg _ hread))
  | list items =>
    cases items with
    | nil =>
      refine iff_of_false (fun h => ?_) Bool.false_ne_true
      cases h
    | cons v rest => exact iff_of_true rfl rfl
  | dict entries =>
    cases entries with
    | nil => exact iff_of_true rfl rfl
    | cons e rest => exact iff_of_true rfl rfl
  | _ => exact iff_of_true rfl rfl

/-- The arrays that are left alone are all values but null, texts and the empty dictionary. -/
theorem cast_array_self (w : Value) :
    w.cast .array = .ok w ↔ CastKind.array.keeps w = true := by
  cases w with
  | null =>
    refine iff_of_false (fun h => ?_) Bool.false_ne_true
    cases h
  | text s =>
    refine iff_of_false (fun h => ?_) Bool.false_ne_true
    simp only [cast] at h
    split at h
    · cases h
    · exact readJson_ne_self s h
  | list items =>
    cases items with
    | nil => exact iff_of_true rfl rfl
    | cons v rest => exact iff_of_true rfl rfl
  | dict entries =>
    cases entries with
    | nil =>
      refine iff_of_false (fun h => ?_) Bool.false_ne_true
      cases h
    | cons e rest => exact iff_of_true rfl rfl
  | _ => exact iff_of_true rfl rfl

/-- Casting what a cast has made gives the same again exactly where the cast keeps it. -/
theorem cast_again (h : v.cast kind = .ok w) : w.cast kind = .ok w ↔ kind.keeps w = true := by
  cases kind with
  | string => exact iff_of_true (cast_string_again h) rfl
  | integer | float =>
    simp only [cast] at h
    split at h
    · cases h
      exact iff_of_true rfl rfl
    · obtain ⟨x, -, h⟩ := bind_eq_ok.1 h
      cases h
      exact iff_of_true rfl rfl
  | number => exact iff_of_true (cast_number_again h) rfl
  | boolean => exact iff_of_true (cast_boolean_again h) rfl
  | date => exact iff_of_true (cast_date_again h) rfl
  | any => exact iff_of_true rfl rfl
  | location =>
    rw [cast_location_again h]
    cases w <;> simp [CastKind.keeps, isNull]
  | object => exact cast_object_self w
  | array => exact cast_array_self w

end Value

/-! ## What holds no records -/

/-- A value that is no record and no list with a record in it. -/
def Value.Bare : Value → Prop
  | .list items => ∀ v ∈ items, Record.ofValue? v = none
  | v => Record.ofValue? v = none

theorem Json.Native.ofValue? (h : Native v) : Record.ofValue? v = none := by
  cases h <;> rfl

theorem Json.Native.bare (h : Native v) : v.Bare := by
  cases h with
  | list hitems => exact fun u hu => (hitems u hu).ofValue?
  | _ => rfl

namespace Value

theorem Bare.cast (hv : v.Bare) (h : v.cast kind = .ok w) : w.Bare := by
  obtain rfl | ⟨-, m, rfl, -⟩ | ⟨hnative, -⟩ := cast_cases h
  · exact hv
  · rfl
  · exact hnative.bare

theorem ofValue?_of_cast (hv : Record.ofValue? v = none) (h : v.cast kind = .ok w) :
    Record.ofValue? w = none := by
  obtain rfl | ⟨-, m, rfl, -⟩ | ⟨hnative, -⟩ := cast_cases h
  · exact hv
  · rfl
  · exact hnative.ofValue?

end Value

end DocumentMapper
