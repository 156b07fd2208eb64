import DocumentMapper.Calendar.Iso
import DocumentMapper.Proofs.Calendar.Civil

/-!
# Reading a written moment

Numbers of a fixed width are read back digit by digit, then the date and the time that are made of
them, then the distance from UTC. The reader accepts many more forms than the writer produces; in
each place it is led by the character that stands there, and so what matters is which characters
the writer puts where.

A distance of less than a second is read as none at all. So a moment is read back when its distance
from UTC is one of whole seconds.
-/

namespace DocumentMapper.Calendar

/-! ## Numbers of a fixed width -/

theorem digitValue?_digitChar {d : Nat} (h : d < 10) : digitValue? d.digitChar = some d := by
  have hall : ∀ d < 10, digitValue? (Nat.digitChar d) = some d := by decide
  exact hall d h

theorem padded_one {n : Nat} (h : n < 10) : padded 1 n = [n.digitChar] := by
  rw [padded, Nat.toDigits_of_lt_base h]
  rfl

/-- The last digit stands behind the digits of the rest of the number. -/
theorem padded_succ (width n : Nat) :
    padded (width + 2) n = padded (width + 1) (n / 10) ++ [(n % 10).digitChar] := by
  unfold padded
  rcases Nat.lt_or_ge n 10 with hlt | hge
  · rw [Nat.toDigits_of_lt_base hlt, Nat.div_eq_of_lt hlt, Nat.mod_eq_of_lt hlt]
    simp [List.replicate_succ']
  · rw [Nat.toDigits_of_base_le (by decide) hge]
    simp

theorem padded_ne_nil (width n : Nat) : padded width n ≠ [] := by
  simp [padded, Nat.toDigits_ne_nil]

theorem isDigit_of_mem_padded {width n : Nat} {c : Char} (h : c ∈ padded width n) :
    c.isDigit = true := by
  rcases List.mem_append.1 h with h | h
  · rw [List.eq_of_mem_replicate h]
    rfl
  · exact Nat.isDigit_of_mem_toDigits (by decide) (by decide) h

theorem exists_padded_eq_cons (width n : Nat) :
    ∃ c cs, padded width n = c :: cs ∧ c.isDigit = true := by
  obtain ⟨c, cs, h⟩ := List.exists_cons_of_ne_nil (padded_ne_nil width n)
  have hmem : c ∈ padded width n := by
    rw [h]
    exact List.mem_cons_self
  exact ⟨c, cs, h, isDigit_of_mem_padded hmem⟩

theorem isDigit_of_padded_append {width n : Nat} {rest cs : List Char} {c : Char}
    (h : padded width n ++ rest = c :: cs) : c.isDigit = true := by
  obtain ⟨x, xs, hx, hdigit⟩ := exists_padded_eq_cons width n
  rw [hx, List.cons_append] at h
  cases h
  exact hdigit

theorem length_padded {width n : Nat} (h : n < 10 ^ (width + 1)) :
    (padded (width + 1) n).length = width + 1 := by
  induction width generalizing n with
  | zero => rw [padded_one h, List.length_singleton]
  | succ width ih =>
    have hrest : n / 10 < 10 ^ (width + 1) := by
      rw [Nat.pow_succ] at h
      omega
    rw [padded_succ, List.length_append, ih hrest, List.length_singleton]

/-- One more digit is read behind a number. -/
theorem takeNumber_succ {width n d : Nat} {cs rest : List Char} {c : Char}
    (h : takeNumber width cs = some (n, c :: rest)) (hd : digitValue? c = some d) :
    takeNumber (width + 1) cs = some (10 * n + d, rest) := by
  induction width generalizing cs n with
  | zero =>
    cases h
    simp [takeNumber, hd]
  | succ width ih =>
    cases cs with
    | nil => cases h
    | cons x xs =>
      simp only [takeNumber, Option.bind_eq_bind, Option.bind_eq_some_iff, Option.some.injEq,
        Prod.mk.injEq, Prod.exists] at h
      obtain ⟨dx, hx, k, _, hk, hn, rfl⟩ := h
      rw [takeNumber, hx, Option.bind_eq_bind, Option.bind_some, ih hk]
      simp only [Option.bind_eq_bind, Option.bind_some, Option.some.injEq, Prod.mk.injEq, and_true]
      rw [← hn, Nat.pow_eq, Nat.pow_eq, Nat.pow_succ, Nat.mul_add, ← Nat.mul_assoc dx,
        Nat.mul_comm _ 10, Nat.add_assoc]

/-- A number that fits is read back from its digits, whatever follows. -/
theorem takeNumber_padded {width n : Nat} (h : n < 10 ^ (width + 1)) (rest : List Char) :
    takeNumber (width + 1) (padded (width + 1) n ++ rest) = some (n, rest) := by
  induction width generalizing n rest with
  | zero =>
    rw [padded_one h, List.singleton_append]
    exact (takeNumber_succ rfl (digitValue?_digitChar h)).trans (by simp)
  | succ width ih =>
    have hrest : n / 10 < 10 ^ (width + 1) := by
      rw [Nat.pow_succ] at h
      omega
    have hlast : n % 10 < 10 := Nat.mod_lt _ (by decide)
    rw [padded_succ, List.append_assoc, List.singleton_append,
      takeNumber_succ (ih hrest _) (digitValue?_digitChar hlast), Nat.div_add_mod]

/-! ## Dates -/

namespace Date

variable {date : Date}

/-- A date that fits into ten characters. -/
structure Fits (date : Date) : Prop where
  year_lt : date.year < 10 ^ 4
  month_lt : date.month < 10 ^ 2
  day_lt : date.day < 10 ^ 2

theorem fits_ofDayNumber {number : Nat} (h : number < dayCount) : (ofDayNumber number).Fits := by
  have hcivil := isCivil_ofDayNumber number
  have hmonth := hcivil.month_le
  have hday := hcivil.day_le
  have hlength := daysInMonth_le (ofDayNumber number).year (ofDayNumber number).month
  exact ⟨year_ofDayNumber_lt h, by omega, by omega⟩

theorem Fits.length_iso (h : date.Fits) : date.iso.length = 10 := by
  simp [iso, length_padded h.year_lt, length_padded h.month_lt, length_padded h.day_lt]

/-- The fifth character is a hyphen, and the one behind it a digit. -/
theorem Fits.dateLength?_iso (h : date.Fits) (rest : List Char) :
    dateLength? (date.iso ++ rest) = some 10 := by
  have hlength : 10 ≤ (date.iso ++ rest).length := by
    rw [List.length_append, h.length_iso]
    omega
  have hyear : (padded 4 date.year).length = 4 := length_padded h.year_lt
  have hmonth : (padded 2 date.month).length = 2 := length_padded h.month_lt
  have hhyphen : (date.iso ++ rest)[4]? = some '-' := by
    simp only [iso, List.append_assoc, List.cons_append]
    rw [List.getElem?_append_right (by omega), hyear]
    rfl
  have hdigit : (date.iso ++ rest)[5]? ≠ some 'W' := by
    simp only [iso, List.append_assoc, List.cons_append]
    rw [List.getElem?_append_right (by omega), hyear, show 5 - 4 = 0 + 1 from rfl,
      List.getElem?_cons_succ, List.getElem?_append_left (by omega)]
    intro hweek
    exact absurd (isDigit_of_mem_padded (List.mem_of_getElem? hweek)) (by decide)
  unfold dateLength?
  rw [if_neg (by omega), if_neg (by omega), if_pos hhyphen, if_neg hdigit]

theorem Fits.readDate?_iso (h : date.Fits) :
    readDate? date.iso = some ⟨date.year, date.month, date.day⟩ := by
  have hyear : ∀ rest, takeNumber 4 (padded 4 date.year ++ rest) = some (date.year, rest) :=
    takeNumber_padded h.year_lt
  have hmonth : ∀ rest, takeNumber 2 (padded 2 date.month ++ rest) = some (date.month, rest) :=
    takeNumber_padded h.month_lt
  have hday : takeNumber 2 (padded 2 date.day) = some (date.day, []) := by
    simpa using takeNumber_padded h.day_lt []
  simp only [readDate?, iso, List.append_assoc, List.cons_append, hyear, Option.bind_eq_bind,
    Option.bind_some]
  split
  · next hweek =>
    exact absurd (isDigit_of_padded_append hweek) (by decide)
  · simp [hmonth, hday]

end Date

/-! ## Times -/

/-- A time of the day as it is read. -/
def ClockReading.ofMicro (micro : Nat) : ClockReading :=
  { hour := micro / (3600 * Calendar.second)
    minute := micro / (60 * Calendar.second) % 60
    second := micro / Calendar.second % 60
    micro := micro % Calendar.second
    leftover := false }

theorem ClockReading.leftover_ofMicro (micro : Nat) : (ofMicro micro).leftover = false := rfl

theorem ClockReading.total_ofMicro (micro : Nat) :
    (((ofMicro micro).hour * 60 + (ofMicro micro).minute) * 60 + (ofMicro micro).second) *
      Calendar.second + (ofMicro micro).micro = micro := by
  simp only [ofMicro, Calendar.second]
  omega

theorem afterPair?_colon {rest : List Char} (h : rest ≠ []) :
    afterPair? true (':' :: rest) = some (.next rest) := by
  cases rest with
  | nil => exact absurd rfl h
  | cons c cs => rfl

theorem afterPair?_point {rest : List Char} (h : rest ≠ []) :
    afterPair? true ('.' :: rest) = some (.fraction rest) := by
  cases rest with
  | nil => exact absurd rfl h
  | cons c cs => rfl

theorem readFraction?_padded {n : Nat} (hour minute second : Nat) (h : n < 10 ^ 6) :
    readFraction? hour minute second (padded 6 n) = some ⟨hour, minute, second, n, false⟩ := by
  have hlength : (padded 6 n).length = 6 := length_padded h
  have htake : takeNumber 6 (padded 6 n) = some (n, []) := by
    simpa using takeNumber_padded h []
  simp [readFraction?, hlength, htake]

section

variable {hour minute second fraction : Nat}

theorem readClock?_minutes (hhour : hour < 10 ^ 2) (hminute : minute < 10 ^ 2) :
    readClock? (padded 2 hour ++ ':' :: padded 2 minute) = some ⟨hour, minute, 0, 0, false⟩ := by
  have htake : takeNumber 2 (padded 2 minute) = some (minute, []) := by
    simpa using takeNumber_padded hminute []
  simp only [readClock?, takeNumber_padded hhour, Option.bind_eq_bind, Option.bind_some,
    List.head?_cons, BEq.rfl, afterPair?_colon (padded_ne_nil 2 minute), htake]
  rfl

theorem readClock?_seconds (hhour : hour < 10 ^ 2) (hminute : minute < 10 ^ 2)
    (hsecond : second < 10 ^ 2) :
    readClock? (padded 2 hour ++ ':' :: (padded 2 minute ++ ':' :: padded 2 second)) =
      some ⟨hour, minute, second, 0, false⟩ := by
  have hne : padded 2 minute ++ ':' :: padded 2 second ≠ [] :=
    List.append_ne_nil_of_left_ne_nil (padded_ne_nil 2 minute) _
  have htake : takeNumber 2 (padded 2 second) = some (second, []) := by
    simpa using takeNumber_padded hsecond []
  simp only [readClock?, takeNumber_padded hhour, Option.bind_eq_bind, Option.bind_some,
    List.head?_cons, BEq.rfl, afterPair?_colon hne, takeNumber_padded hminute,
    afterPair?_colon (padded_ne_nil 2 second), htake]
  rfl

theorem readClock?_fraction (hhour : hour < 10 ^ 2) (hminute : minute < 10 ^ 2)
    (hsecond : second < 10 ^ 2) (hfraction : fraction < 10 ^ 6) :
    readClock? (padded 2 hour ++ ':' :: (padded 2 minute ++
      ':' :: (padded 2 second ++ '.' :: padded 6 fraction))) =
        some ⟨hour, minute, second, fraction, false⟩ := by
  have hne : padded 2 minute ++ ':' :: (padded 2 second ++ '.' :: padded 6 fraction) ≠ [] :=
    List.append_ne_nil_of_left_ne_nil (padded_ne_nil 2 minute) _
  have hne' : padded 2 second ++ '.' :: padded 6 fraction ≠ [] :=
    List.append_ne_nil_of_left_ne_nil (padded_ne_nil 2 second) _
  simp only [readClock?, takeNumber_padded hhour, Option.bind_eq_bind, Option.bind_some,
    List.head?_cons, BEq.rfl, afterPair?_colon hne, takeNumber_padded hminute,
    afterPair?_colon hne', takeNumber_padded hsecond, afterPair?_point (padded_ne_nil 6 fraction),
    readFraction?_padded _ _ _ hfraction]

end

/-- A time of the day is read back, whether its seconds are written or left out. -/
theorem readClock?_clockText (always : Bool) {micro : Nat} (h : micro < day) :
    readClock? (clockText always micro) = some (.ofMicro micro) := by
  have hhour : micro / (3600 * second) < 10 ^ 2 := by
    simp only [day, second] at h ⊢
    omega
  have hminute : micro / (60 * second) % 60 < 10 ^ 2 := by omega
  have hsecond : micro / second % 60 < 10 ^ 2 := by omega
  have hfraction : micro % second < 10 ^ 6 := by
    simp only [second]
    omega
  simp only [clockText, List.append_assoc, List.cons_append]
  by_cases hzero : micro % second = 0
  · rw [if_pos hzero, List.append_nil]
    by_cases hwritten : (always || micro / second % 60 != 0 || micro % second != 0) = true
    · rw [if_pos hwritten, readClock?_seconds hhour hminute hsecond, ClockReading.ofMicro, hzero]
    · have hnone : micro / second % 60 = 0 := by
        simp at hwritten
        exact hwritten.1.2
      rw [if_neg hwritten, List.append_nil, readClock?_minutes hhour hminute,
        ClockReading.ofMicro, hzero, hnone]
  · have hwritten : (always || micro / second % 60 != 0 || micro % second != 0) = true := by
      simp [hzero]
    rw [if_neg hzero, if_pos hwritten, List.cons_append,
      readClock?_fraction hhour hminute hsecond hfraction]
    rfl

/-! ## Distances from UTC -/

theorem mem_clockText {always : Bool} {micro : Nat} {c : Char}
    (h : c ∈ clockText always micro) : c.isDigit = true ∨ c = ':' ∨ c = '.' := by
  unfold clockText at h
  simp only [List.mem_append, List.mem_cons] at h
  rcases h with ((h | h | h) | h) | h
  · exact .inl (isDigit_of_mem_padded h)
  · exact .inr (.inl h)
  · exact .inl (isDigit_of_mem_padded h)
  · split at h
    · rcases List.mem_cons.1 h with h | h
      · exact .inr (.inl h)
      · exact .inl (isDigit_of_mem_padded h)
    · cases h
  · split at h
    · cases h
    · rcases List.mem_cons.1 h with h | h
      · exact .inr (.inr h)
      · exact .inl (isDigit_of_mem_padded h)

/-- No character of a time begins a distance from UTC. -/
theorem not_mark_of_mem_clockText {always : Bool} {micro : Nat} {c : Char}
    (h : c ∈ clockText always micro) : (!(c == '+' || c == '-' || c == 'Z')) = true := by
  have hne : ∀ mark : Char, mark.isDigit = false → mark ≠ ':' → mark ≠ '.' → c ≠ mark := by
    rintro _ hdigit hcolon hpoint rfl
    rcases mem_clockText h with h | h | h
    · rw [h] at hdigit
      cases hdigit
    · exact hcolon h
    · exact hpoint h
  simp [hne '+' (by decide) (by decide) (by decide), hne '-' (by decide) (by decide) (by decide),
    hne 'Z' (by decide) (by decide) (by decide)]

/-- A distance of whole seconds is its sign and its size, and none of it is lost with a fraction. -/
theorem signed_eq {o : Int} (hwhole : (second : Int) ∣ o) :
    let clock := ClockReading.ofMicro o.natAbs
    let whole : Nat := clock.hour * 3600 + clock.minute * 60 + clock.second
    let micro : Int := whole * second + clock.micro
    (if whole = 0 then 0 else if o < 0 then -micro else micro) = o := by
  have htotal := ClockReading.total_ofMicro o.natAbs
  have hmicro : (ClockReading.ofMicro o.natAbs).micro = 0 := by
    simp only [ClockReading.ofMicro, second] at hwhole ⊢
    omega
  simp only [second] at htotal ⊢
  split
  · omega
  · split
    · omega
    · omega

/-- A time and a distance from UTC are read back. -/
theorem readTime?_clockText {micro : Nat} {offset : Option Int} (h : micro < day)
    (hoffset : ∀ o ∈ offset, -(day : Int) < o ∧ o < day)
    (hwhole : ∀ o ∈ offset, (second : Int) ∣ o) :
    readTime? (clockText true micro ++ offsetText offset) = some (.ofMicro micro, offset) := by
  have hmark : ∀ c ∈ clockText true micro, (!(c == '+' || c == '-' || c == 'Z')) = true :=
    fun c hc => not_mark_of_mem_clockText hc
  simp only [readTime?, List.takeWhile_append_of_pos hmark, List.dropWhile_append_of_pos hmark]
  cases offset with
  | none =>
    simp only [offsetText, List.takeWhile_nil, List.dropWhile_nil, List.append_nil,
      readClock?_clockText true h, Option.bind_eq_bind, Option.bind_some]
    rfl
  | some o =>
    have hlt : o.natAbs < day := by
      have hbound := hoffset o rfl
      omega
    have hdistance := readClock?_clockText false hlt
    have hsigned := signed_eq (hwhole o rfl)
    simp only [offsetText]
    generalize hsign : (if o < 0 then '-' else '+') = sign
    have hcases : sign = '-' ∧ o < 0 ∨ sign = '+' ∧ ¬ o < 0 := by
      rw [← hsign]
      split
      · next hneg => exact .inl ⟨rfl, hneg⟩
      · next hneg => exact .inr ⟨rfl, hneg⟩
    have hminus : sign = '-' ↔ o < 0 := by
      rcases hcases with ⟨rfl, hneg⟩ | ⟨rfl, hneg⟩
      · exact iff_of_true rfl hneg
      · exact iff_of_false (by decide) hneg
    have hz : sign ≠ 'Z' := by
      rcases hcases with ⟨rfl, -⟩ | ⟨rfl, -⟩ <;> decide
    have hstop : ¬ (!(sign == '+' || sign == '-' || sign == 'Z')) = true := by
      rcases hcases with ⟨rfl, -⟩ | ⟨rfl, -⟩ <;> decide
    simp only [List.takeWhile_cons, List.dropWhile_cons, hstop, Bool.false_eq_true, if_false,
      List.append_nil, readClock?_clockText true h, Option.bind_eq_bind, Option.bind_some]
    split
    · next heq => cases heq
    · next heq => exact absurd (List.cons.inj heq).1 hz
    · next heq => exact absurd (List.cons.inj heq).1 hz
    · next heq =>
      obtain ⟨rfl, rfl⟩ := List.cons.inj heq
      simp only [hdistance, Option.bind_some, ClockReading.leftover_ofMicro, Bool.false_eq_true,
        if_false, hminus, hsigned]

/-! ## Moments -/

theorem hour_minute_second_lt {micro : Nat} (h : micro < day) :
    (ClockReading.ofMicro micro).hour ≤ 23 ∧ (ClockReading.ofMicro micro).minute ≤ 59 ∧
      (ClockReading.ofMicro micro).second ≤ 59 := by
  simp only [ClockReading.ofMicro, day, second] at h ⊢
  omega

namespace Moment

variable (m : Moment)

theorem wall_div_day_lt : m.wall / day < dayCount := by
  apply Nat.div_lt_of_lt_mul
  rw [Nat.mul_comm]
  exact m.wall_lt

theorem wall_mod_day_lt : m.wall % day < day :=
  Nat.mod_lt _ (by decide)

/-- The date and the time that a moment shows make up the moment. -/
theorem assemble_date :
    assemble ⟨m.date.year, m.date.month, m.date.day⟩ (.ofMicro (m.wall % day)) m.offset =
      .ok m := by
  obtain ⟨hhour, hminute, hsecond⟩ := hour_minute_second_lt m.wall_mod_day_lt
  have htotal := ClockReading.total_ofMicro (m.wall % day)
  have hlate : m.date.year < 10000 := year_ofDayNumber_lt m.wall_div_day_lt
  obtain ⟨hyear, hmonth, hmonth', hday, hday'⟩ : m.date.IsCivil := isCivil_ofDayNumber _
  have hnumber : Date.dayNumber ⟨m.date.year, m.date.month, m.date.day⟩ = m.wall / day :=
    dayNumber_ofDayNumber _
  have hwall : m.wall / day * day + m.wall % day = m.wall := Nat.div_add_mod' _ _
  simp only [assemble, Int.toNat_natCast, hnumber, htotal, hwall]
  rw [dif_pos m.offset_lt, if_neg (by omega), if_neg (by omega), if_neg (by omega),
    if_neg (by omega), if_neg (by omega), if_neg (by omega), dif_pos m.wall_lt]

/-- A moment is read back from its text, whatever stands between its date and its time. -/
theorem ofIsoChars_isoChars (separator : Char) (hwhole : ∀ o ∈ m.offset, (second : Int) ∣ o) :
    ofIsoChars (m.isoChars separator) = .ok m := by
  have hfits : m.date.Fits := Date.fits_ofDayNumber m.wall_div_day_lt
  have htake : (m.isoChars separator).take 10 = m.date.iso := by
    rw [isoChars, List.append_assoc, List.take_left' hfits.length_iso]
  have hdrop : (m.isoChars separator).drop 10 =
      separator :: (clockText true (m.wall % day) ++ offsetText m.offset) := by
    rw [isoChars, List.append_assoc, List.drop_left' hfits.length_iso]
    rfl
  have hlength : dateLength? (m.isoChars separator) = some 10 := by
    rw [isoChars, List.append_assoc]
    exact hfits.dateLength?_iso _
  have htime := readTime?_clockText m.wall_mod_day_lt m.offset_lt hwhole
  simp only [ofIsoChars, hlength, htake, hdrop, hfits.readDate?_iso, htime, m.assemble_date]

end Moment

end DocumentMapper.Calendar
