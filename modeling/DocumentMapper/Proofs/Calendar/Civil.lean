import DocumentMapper.Calendar.Civil
import Mathlib

/-!
# Dates of day numbers

A day number has exactly one date: taking off whole cycles of years, then whole months, leaves a
day of a month, and counting the days before that date gives the number again. The first 3652059
numbers are the days of the years 1 to 9999.
-/

namespace DocumentMapper.Calendar

/-- A date that the calendar has, of year 1 or later. -/
structure Date.IsCivil (date : Date) : Prop where
  year_pos : 1 ≤ date.year
  month_pos : 1 ≤ date.month
  month_le : date.month ≤ 12
  day_pos : 1 ≤ date.day
  day_le : date.day ≤ daysInMonth date.year date.month

theorem length_monthLengths (leap : Bool) : (monthLengths leap).length = 12 := rfl

theorem sum_monthLengths (leap : Bool) :
    (monthLengths leap).sum = 365 + if leap then 1 else 0 := by
  cases leap <;> rfl

/-! ## Years -/

/-- The days that are past in a year are fewer than the days of the year. The last of four years
has one day more, unless it ends a century that does not end a cycle of four centuries. -/
theorem splitYear_snd_lt (number : Nat) :
    (splitYear number).2 < 365 + if isLeap (splitYear number).1 then 1 else 0 := by
  simp only [splitYear, isLeap, Bool.and_eq_true, Bool.or_eq_true, beq_iff_eq, bne_iff_ne]
  split <;> omega

theorem splitYear_fst_pos (number : Nat) : 1 ≤ (splitYear number).1 := by
  simp only [splitYear]
  omega

/-- Whole cycles of 400, 100, 4 and 1 years are past. -/
theorem daysBeforeYear_cycles {cycles centuries leaps years : Nat} (hcenturies : centuries ≤ 3)
    (hleaps : leaps ≤ 24) (hyears : years ≤ 3) :
    daysBeforeYear (400 * cycles + 100 * centuries + 4 * leaps + years + 1) =
      146097 * cycles + 36524 * centuries + 1461 * leaps + 365 * years := by
  have hfour : (400 * cycles + 100 * centuries + 4 * leaps + years) / 4 =
      100 * cycles + 25 * centuries + leaps := by omega
  have hhundred : (400 * cycles + 100 * centuries + 4 * leaps + years) / 100 =
      4 * cycles + centuries := by omega
  have hcycle : (400 * cycles + 100 * centuries + 4 * leaps + years) / 400 = cycles := by omega
  simp only [daysBeforeYear, Nat.add_sub_cancel, hfour, hhundred, hcycle]
  omega

theorem daysBeforeYear_splitYear (number : Nat) :
    daysBeforeYear (splitYear number).1 + (splitYear number).2 = number := by
  have hleaps : (number % 146097 - 36524 * min (number % 146097 / 36524) 3) / 1461 ≤ 24 := by
    omega
  simp only [splitYear]
  rw [daysBeforeYear_cycles (Nat.min_le_right _ _) hleaps (Nat.min_le_right _ _)]
  omega

theorem daysBeforeYear_mono {a b : Nat} (h : a ≤ b) : daysBeforeYear a ≤ daysBeforeYear b := by
  have hfour : (a - 1) / 4 ≤ (b - 1) / 4 := Nat.div_le_div_right (by omega)
  have hhundred : (b - 1) / 100 ≤ (a - 1) / 100 + (b - a) := by omega
  have hcycle : (a - 1) / 400 ≤ (b - 1) / 400 := Nat.div_le_div_right (by omega)
  simp only [daysBeforeYear]
  omega

theorem splitYear_fst_lt {number : Nat} (h : number < dayCount) :
    (splitYear number).1 < 10000 := by
  rcases Nat.lt_or_ge (splitYear number).1 10000 with hyear | hyear
  · exact hyear
  · have hmono := daysBeforeYear_mono hyear
    have hsplit := daysBeforeYear_splitYear number
    unfold dayCount at h
    omega

/-! ## Months -/

variable {length day : Nat} {lengths : List Nat}

theorem splitMonths_cons_of_lt (h : day < length) :
    splitMonths (length :: lengths) day = (0, day) := by
  rw [splitMonths, if_pos h]

theorem splitMonths_cons_of_le (h : length ≤ day) :
    splitMonths (length :: lengths) day =
      ((splitMonths lengths (day - length)).1 + 1, (splitMonths lengths (day - length)).2) := by
  rw [splitMonths, if_neg (Nat.not_lt.2 h)]

/-- A day that lies within the months lies within the month found, after the months before it. -/
theorem splitMonths_spec (h : day < lengths.sum) :
    (splitMonths lengths day).1 < lengths.length ∧
      (lengths.take (splitMonths lengths day).1).sum + (splitMonths lengths day).2 = day ∧
      (splitMonths lengths day).2 < lengths[(splitMonths lengths day).1]?.getD 0 := by
  induction lengths generalizing day with
  | nil => exact absurd h (Nat.not_lt_zero _)
  | cons length lengths ih =>
    rcases Nat.lt_or_ge day length with hlt | hle
    · simp [splitMonths_cons_of_lt hlt, hlt]
    · rw [List.sum_cons] at h
      have hrest : day - length < lengths.sum := by omega
      obtain ⟨hmonth, hday, hleft⟩ := ih hrest
      rw [splitMonths_cons_of_le hle]
      simp only [List.length_cons, List.take_succ_cons, List.sum_cons, List.getElem?_cons_succ]
      omega

theorem daysBeforeMonth_eq_sum (year month : Nat) :
    daysBeforeMonth year month = ((monthLengths (isLeap year)).take (month - 1)).sum := by
  rw [daysBeforeMonth, List.sum_eq_foldl]

/-! ## Dates -/

theorem year_ofDayNumber (number : Nat) :
    (Date.ofDayNumber number).year = (splitYear number).1 :=
  rfl

theorem splitMonths_ofDayNumber (number : Nat) :
    let date := Date.ofDayNumber number
    1 ≤ date.month ∧ date.month ≤ 12 ∧ 1 ≤ date.day ∧ date.day ≤ daysInMonth date.year date.month ∧
      daysBeforeMonth date.year date.month + (date.day - 1) = (splitYear number).2 := by
  have hday := splitYear_snd_lt number
  rw [← sum_monthLengths] at hday
  obtain ⟨hmonth, hsum, hleft⟩ := splitMonths_spec hday
  rw [length_monthLengths] at hmonth
  simp only [Date.ofDayNumber, daysInMonth, daysBeforeMonth_eq_sum, Nat.add_sub_cancel]
  omega

theorem isCivil_ofDayNumber (number : Nat) : (Date.ofDayNumber number).IsCivil := by
  obtain ⟨hpos, hle, hday, hin, -⟩ := splitMonths_ofDayNumber number
  exact ⟨splitYear_fst_pos number, hpos, hle, hday, hin⟩

/-- The date of a day number has that many days before it. -/
theorem dayNumber_ofDayNumber (number : Nat) : (Date.ofDayNumber number).dayNumber = number := by
  obtain ⟨-, -, -, -, hdays⟩ := splitMonths_ofDayNumber number
  calc (Date.ofDayNumber number).dayNumber
      = daysBeforeYear (splitYear number).1 + (splitYear number).2 := by
        rw [Date.dayNumber, Nat.add_assoc, hdays, year_ofDayNumber]
    _ = number := daysBeforeYear_splitYear number

theorem year_ofDayNumber_lt {number : Nat} (h : number < dayCount) :
    (Date.ofDayNumber number).year < 10000 :=
  splitYear_fst_lt h

theorem daysInMonth_le (year month : Nat) : daysInMonth year month ≤ 31 := by
  have hlengths : ∀ leap, ∀ length ∈ monthLengths leap, length ≤ 31 := by decide
  unfold daysInMonth
  cases hmonth : (monthLengths (isLeap year))[month - 1]? with
  | none => exact Nat.zero_le 31
  | some length => exact hlengths _ _ (List.mem_of_getElem? hmonth)

end DocumentMapper.Calendar
