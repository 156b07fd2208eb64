import DocumentMapper.Cast
import DocumentMapper.Proofs.Outcome

/-!
# Why values are not cast

A cast that fails either refuses the value, because it has the wrong kind or the wrong form, or it
runs out of something: the number is beyond the range of what it is to become, the moment beyond
the calendar, or the value lacks a part that a point is made of. Which of the two it is can be told
from the value.
-/

namespace DocumentMapper

open Calendar Number Outcome

/-- Whether an error says that a number or a moment is beyond its range or that a part is not
there. -/
def Error.overruns : Error → Bool
  | infiniteInteger | integerTooLarge | dateRange | indexRange _ | missingKey _ => true
  | notAUnixTime .beyondClock | notAUnixTime .beyondCalendar => true
  | _ => false

/-- An error is of one of two sorts, and of the second one exactly if something holds. -/
def Error.Sorted (e : Error) (P : Prop) : Prop :=
  (e.refusesValue = true ∧ ¬ P) ∨ (e.overruns = true ∧ P)

namespace Error

variable {e : Error} {P Q : Prop}

theorem refusesValue_of_overruns (h : e.overruns = true) : e.refusesValue = false := by
  unfold overruns at h
  split at h <;> first | rfl | cases h

theorem Sorted.refusesValue_iff (h : e.Sorted P) : e.refusesValue = true ↔ ¬ P := by
  rcases h with ⟨hrefuses, hP⟩ | ⟨hoverruns, hP⟩
  · exact iff_of_true hrefuses hP
  · rw [refusesValue_of_overruns hoverruns]
    exact iff_of_false nofun (not_not_intro hP)

theorem Sorted.congr (h : e.Sorted P) (hiff : P ↔ Q) : e.Sorted Q := by
  rwa [← propext hiff]

theorem Sorted.of_refusesValue (h : e.refusesValue = true) (hP : ¬ P) : e.Sorted P :=
  .inl ⟨h, hP⟩

theorem Sorted.of_overruns (h : e.overruns = true) (hP : P) : e.Sorted P :=
  .inr ⟨h, hP⟩

end Error

/-- The text that is read as a moment in the place of a text. -/
def Calendar.Moment.isoText (s : String) : String :=
  match (Text.trim s).toList.reverse with
  | 'Z' :: rest => String.ofList rest.reverse ++ "+00:00"
  | _ => Text.trim s

theorem Calendar.Moment.parseText_eq (s : String) :
    parseText s = (do
      let m ← (ofIso (isoText s)).mapError (.notAMoment (isoText s))
      m.toUtc) := by
  cases hread : (Text.trim s).toList.reverse with
  | nil => simp only [parseText, isoText, hread]
  | cons c cs =>
    by_cases hz : c = 'Z'
    · simp only [parseText, isoText, hread, hz]
    · simp [parseText, isoText, hread, hz]

/-- Whether seconds since 1970 fit into the clock and into the calendar of the machine. -/
def Calendar.UnixFault.isYear : UnixFault → Bool
  | year _ => true
  | _ => false

namespace Value

variable {v w : Value} {e : Error} {i : Nat}

/-- An integer that no floating-point number is near to. -/
def TooLarge (v : Value) : Prop :=
  ∃ n, v = int n ∧ ofInt? n = none

def Infinite (v : Value) : Prop :=
  ∃ x, v = float x ∧ Dyadic.ofFloat? x = none ∧ isNotANumber x = false

/-- A value with parts that has none at a position, or none under its number. -/
def LacksItem (i : Nat) : Value → Prop
  | list items | tuple items => items.length ≤ i
  | text s => s.toList.length ≤ i
  | dict d => Document.get? d (int i) = none
  | _ => False

/-- A value with parts that has none at a position, or an integer that is too large. -/
def LacksNumber (i : Nat) (v : Value) : Prop :=
  v.LacksItem i ∨ ∃ u, v.item i = .ok u ∧ u.TooLarge

/-- A value that lacks the first number of a point, or has that one and lacks the second. -/
def LacksPoint (v : Value) : Prop :=
  v.LacksNumber 0 ∨ (∃ x, v.item 0 >>= toFloat = .ok x) ∧ v.LacksNumber 1

/-- A value that stands for a moment beyond the calendar: one without a reading in UTC, or seconds
since 1970 that the clock or the calendar of the machine does not count. -/
def BeyondCalendar : Value → Prop
  | null => False
  | moment m => m.toUtc? = none
  | int n => ∃ fault, Moment.ofUnix n 0 = .error fault ∧ fault.isYear = false
  | float x => ∃ fault, Moment.ofUnixFloat x = .error (.notAUnixTime fault) ∧ fault.isYear = false
  | v => ∃ m, Moment.ofIso (Moment.isoText v.display) = .ok m ∧ m.toUtc? = none

end Value

/-- Whether a value is beyond what values of a kind can be. -/
def CastKind.Overruns : CastKind → Value → Prop
  | integer, v => v.Infinite
  | float, v => v.TooLarge
  | date, v => v.BeyondCalendar
  | location, v => v.isEmpty = false ∧ v.LacksPoint
  | _, _ => False

namespace Value

variable {v w : Value} {e : Error} {i : Nat} {kind : CastKind}

/-! ## Numbers and parts -/

theorem sorted_of_toFloat (h : v.toFloat = .error e) : e.Sorted v.TooLarge := by
  cases v with
  | int n =>
    obtain ⟨hn, rfl⟩ := elim_eq_error.1 h
    exact .of_overruns rfl ⟨n, rfl, hn⟩
  | text s =>
    obtain ⟨-, rfl⟩ := elim_eq_error.1 h
    exact .of_refusesValue rfl nofun
  | bool | float => cases h
  | _ =>
    cases h
    exact .of_refusesValue rfl nofun

theorem not_tooLarge {x : Float} (h : v.toFloat = .ok x) : ¬ v.TooLarge := by
  rintro ⟨n, rfl, hn⟩
  rw [toFloat, hn] at h
  cases h

theorem sorted_of_toInteger (h : v.toInteger = .error e) : e.Sorted v.Infinite := by
  cases v with
  | float x =>
    rw [toInteger, truncate] at h
    split at h
    · cases h
    · next hnone =>
      cases h
      by_cases hnan : isNotANumber x = true
      · rw [if_pos hnan]
        refine .of_refusesValue rfl ?_
        rintro ⟨y, hy, -, hnot⟩
        cases hy
        rw [hnan] at hnot
        cases hnot
      · rw [if_neg hnan]
        exact .of_overruns rfl ⟨x, rfl, hnone, Bool.eq_false_iff.2 hnan⟩
  | text s =>
    rw [toInteger] at h
    split at h
    · cases h
    · cases h
      exact .of_refusesValue rfl nofun
  | bool | int => cases h
  | _ =>
    cases h
    exact .of_refusesValue rfl nofun

theorem sorted_of_item (h : v.item i = .error e) : e.Sorted (v.LacksItem i) := by
  cases v with
  | list items | tuple items =>
    obtain ⟨hi, rfl⟩ := elim_eq_error.1 h
    exact .of_overruns rfl (List.getElem?_eq_none_iff.1 hi)
  | text s =>
    obtain ⟨hi, rfl⟩ := elim_eq_error.1 h
    exact .of_overruns rfl (List.getElem?_eq_none_iff.1 hi)
  | dict d =>
    obtain ⟨hi, rfl⟩ := elim_eq_error.1 h
    exact .of_overruns rfl hi
  | _ =>
    cases h
    exact .of_refusesValue rfl id

theorem not_lacksItem (h : v.item i = .ok w) : ¬ v.LacksItem i := by
  intro hlacks
  cases v with
  | list items | tuple items =>
    rw [item, List.getElem?_eq_none_iff.2 hlacks] at h
    cases h
  | text s =>
    have hnone := List.getElem?_eq_none_iff.2 hlacks
    rw [item, hnone] at h
    cases h
  | dict d =>
    have hnone : Document.get? d (int i) = none := hlacks
    rw [item, hnone] at h
    cases h
  | _ => exact hlacks

theorem sorted_of_number (h : v.item i >>= toFloat = .error e) : e.Sorted (v.LacksNumber i) := by
  unfold LacksNumber
  obtain hitem | ⟨u, hitem, hfloat⟩ := bind_eq_error.1 h
  · refine (sorted_of_item hitem).congr ?_
    simp [hitem]
  · refine (sorted_of_toFloat hfloat).congr ?_
    simp [hitem, not_lacksItem hitem]

theorem not_lacksNumber {x : Float} (h : v.item i >>= toFloat = .ok x) : ¬ v.LacksNumber i := by
  unfold LacksNumber
  obtain ⟨u, hitem, hfloat⟩ := bind_eq_ok.1 h
  simp [hitem, not_lacksItem hitem, not_tooLarge hfloat]

theorem sorted_of_toLocation (h : v.toLocation = .error e) : e.Sorted v.LacksPoint := by
  unfold LacksPoint
  have hpoint : v.toLocation = (do
      let x ← v.item 0 >>= toFloat
      let y ← v.item 1 >>= toFloat
      .ok (ofEntries [("type", text "Point"), ("coordinates", list [float x, float y])])) := by
    simp only [toLocation, bind_assoc]
  rw [hpoint] at h
  obtain hfirst | ⟨x, hfirst, h⟩ := bind_eq_error.1 h
  · refine (sorted_of_number hfirst).congr ?_
    simp [hfirst]
  · obtain hsecond | ⟨y, -, h⟩ := bind_eq_error.1 h
    · refine (sorted_of_number hsecond).congr ?_
      simp [hfirst, not_lacksNumber hfirst]
    · cases h

/-! ## Moments -/

theorem sorted_of_toUtc {m : Moment} (h : m.toUtc = .error e) : e.Sorted (m.toUtc? = none) := by
  unfold Moment.toUtc at h
  split at h
  · cases h
  · next hnone =>
    cases h
    exact .of_overruns rfl hnone

theorem sorted_of_parseText {s : String} (h : Moment.parseText s = .error e) :
    e.Sorted (∃ m, Moment.ofIso (Moment.isoText s) = .ok m ∧ m.toUtc? = none) := by
  rw [Moment.parseText_eq] at h
  cases hread : Moment.ofIso (Moment.isoText s) with
  | error fault =>
    rw [hread] at h
    cases h
    exact .of_refusesValue rfl nofun
  | ok m =>
    rw [hread] at h
    have hutc : m.toUtc = .error e := h
    refine (sorted_of_toUtc hutc).congr ?_
    simp

theorem sorted_of_unixFault (fault : UnixFault) :
    (Error.notAUnixTime fault).Sorted (fault.isYear = false) := by
  cases fault with
  | year y => exact .of_refusesValue rfl nofun
  | _ => exact .of_overruns rfl rfl

theorem sorted_of_ofUnixFloat {x : Float} (h : Moment.ofUnixFloat x = .error e) :
    e.Sorted (float x).BeyondCalendar := by
  have hiff : ∀ fault, e = .notAUnixTime fault →
      (fault.isYear = false ↔ (float x).BeyondCalendar) := by
    rintro fault rfl
    unfold BeyondCalendar
    simp [h]
  have hsource : e = .undefinedUnixTime ∨ ∃ fault, e = .notAUnixTime fault := by
    unfold Moment.ofUnixFloat at h
    split at h
    · cases h
      split
      · exact .inl rfl
      · exact .inr ⟨_, rfl⟩
    · obtain ⟨fault, -, he⟩ := mapError_eq_error.1 h
      exact .inr ⟨fault, he.symm⟩
  obtain rfl | ⟨fault, rfl⟩ := hsource
  · refine .of_refusesValue rfl ?_
    rintro ⟨fault, hfault, -⟩
    cases h.symm.trans hfault
  · exact (sorted_of_unixFault fault).congr (hiff fault rfl)

theorem sorted_of_parseMoment (h : v.parseMoment = .error e) : e.Sorted v.BeyondCalendar := by
  unfold parseMoment at h
  split at h
  · cases h
  · cases h
  · obtain h | ⟨m', -, h⟩ := bind_eq_error.1 h
    · exact sorted_of_toUtc h
    · cases h
  · next n =>
    obtain h | ⟨m', -, h⟩ := bind_eq_error.1 h
    · obtain ⟨fault, hfault, rfl⟩ := mapError_eq_error.1 h
      refine (sorted_of_unixFault fault).congr ?_
      simp [BeyondCalendar, hfault]
    · cases h
  · obtain h | ⟨m', -, h⟩ := bind_eq_error.1 h
    · exact sorted_of_ofUnixFloat h
    · cases h
  · obtain h | ⟨m', -, h⟩ := bind_eq_error.1 h
    · refine (sorted_of_parseText h).congr ?_
      unfold BeyondCalendar
      split <;> simp_all
    · cases h

/-! ## Casts -/

/-- A cast refuses a value unless the value is beyond what the kind can hold. -/
theorem sorted_of_cast (h : v.cast kind = .error e) : e.Sorted (kind.Overruns v) := by
  cases kind with
  | string | boolean | any => cases h
  | integer =>
    simp only [cast] at h
    split at h
    · cases h
    · obtain h | ⟨n, -, h⟩ := bind_eq_error.1 h
      · exact sorted_of_toInteger h
      · cases h
  | float =>
    simp only [cast] at h
    split at h
    · cases h
    · obtain h | ⟨n, -, h⟩ := bind_eq_error.1 h
      · exact sorted_of_toFloat h
      · cases h
  | number =>
    simp only [cast] at h
    split at h
    · cases h
    · unfold toNumber at h
      split at h
      · cases h
      · cases h
      · next hint hfloat =>
        obtain h | ⟨x, -, h⟩ := bind_eq_error.1 h
        · refine (sorted_of_toFloat h).congr (iff_of_false ?_ id)
          rintro ⟨n, rfl, -⟩
          exact hint n rfl
        · cases h
  | date => exact sorted_of_parseMoment h
  | location =>
    simp only [cast] at h
    split at h
    · cases h
    · next hempty =>
      refine (sorted_of_toLocation h).congr ?_
      simp [CastKind.Overruns, hempty]
  | object =>
    simp only [cast] at h
    split at h
    · cases h
    · split at h <;> cases h
  | array =>
    simp only [cast] at h
    split at h
    · cases h
    · split at h
      · obtain ⟨fault, -, rfl⟩ := mapError_eq_error.1 h
        exact .of_refusesValue rfl id
      · cases h

end Value

end DocumentMapper
