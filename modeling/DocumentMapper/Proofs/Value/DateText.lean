import DocumentMapper.Proofs.Calendar.Iso
import DocumentMapper.Proofs.Value.Moments
import DocumentMapper.Proofs.Value.Overruns

/-!
# Texts of moments

A cast to a date reads the text of a moment as that moment on a clock of UTC, with a T or a blank
between date and time, with a Z in the place of a distance of zero, and with blanks around it. So a
date that was stored is found again in its text.

The text begins and ends with a digit or a Z. So trimming takes off nothing else than the blanks
around it, and the Z that is looked for at the end is no part of a moment that has none.
-/

namespace DocumentMapper

open Calendar

/-! ## Trimming -/

namespace Text

theorem dropWhile_isBlank {blanks rest : List Char} {c : Char}
    (hblanks : ∀ b ∈ blanks, isBlank b = true) (hc : isBlank c = false) :
    (blanks ++ c :: rest).dropWhile isBlank = c :: rest := by
  rw [List.dropWhile_append_of_pos hblanks, List.dropWhile_cons_of_neg (Bool.eq_false_iff.1 hc)]

/-- Blanks around a text are taken off, as far as the text has none itself at its ends. -/
theorem trim_blanks {before cs after front rest : List Char} {first last : Char}
    (hbefore : ∀ c ∈ before, isBlank c = true) (hafter : ∀ c ∈ after, isBlank c = true)
    (hfirst : cs = first :: rest) (hfirst' : isBlank first = false)
    (hlast : cs = front ++ [last]) (hlast' : isBlank last = false) :
    trim (String.ofList (before ++ cs ++ after)) = String.ofList cs := by
  have hleft : (before ++ cs ++ after).dropWhile isBlank = cs ++ after := by
    rw [List.append_assoc, hfirst, List.cons_append, dropWhile_isBlank hbefore hfirst']
  have hreverse : (cs ++ after).reverse = after.reverse ++ last :: front.reverse := by
    rw [List.reverse_append, hlast, List.reverse_append, List.reverse_singleton,
      List.singleton_append]
  have hright : (cs ++ after).reverse.dropWhile isBlank = last :: front.reverse := by
    rw [hreverse]
    apply dropWhile_isBlank _ hlast'
    intro c hc
    exact hafter c (List.mem_reverse.1 hc)
  rw [trim, trimBoth, String.toList_ofList, hleft, hright, List.reverse_cons, List.reverse_reverse,
    hlast]

theorem isBlank_of_isDigit {c : Char} (h : c.isDigit = true) : isBlank c = false := by
  rw [Bool.eq_false_iff]
  intro hblank
  have halphanum := isAlphanum_of_isBlank hblank
  rw [Char.isAlphanum, h, Bool.or_true] at halphanum
  cases halphanum

end Text

/-! ## The ends of a text -/

namespace Calendar

/-- The last character is a digit. -/
def EndsInDigit (cs : List Char) : Prop :=
  ∃ front last, cs = front ++ [last] ∧ last.isDigit = true

theorem EndsInDigit.append_left {cs : List Char} (h : EndsInDigit cs) (before : List Char) :
    EndsInDigit (before ++ cs) := by
  obtain ⟨front, last, rfl, hlast⟩ := h
  exact ⟨before ++ front, last, (List.append_assoc _ _ _).symm, hlast⟩

theorem EndsInDigit.cons {cs : List Char} (h : EndsInDigit cs) (c : Char) :
    EndsInDigit (c :: cs) :=
  h.append_left [c]

theorem endsInDigit_padded (width n : Nat) : EndsInDigit (padded width n) := by
  have hsplit := List.dropLast_concat_getLast (padded_ne_nil width n)
  exact ⟨_, _, hsplit.symm, isDigit_of_mem_padded (List.getLast_mem (padded_ne_nil width n))⟩

theorem endsInDigit_clockText (always : Bool) (micro : Nat) :
    EndsInDigit (clockText always micro) := by
  simp only [clockText]
  by_cases hzero : micro % second = 0
  · rw [if_pos hzero, List.append_nil]
    split
    · exact ((endsInDigit_padded _ _).cons ':').append_left _
    · rw [List.append_nil]
      exact ((endsInDigit_padded _ _).cons ':').append_left _
  · rw [if_neg hzero]
    exact ((endsInDigit_padded _ _).cons '.').append_left _

namespace Moment

variable {m : Moment}

theorem endsInDigit_isoChars (separator : Char) : EndsInDigit (m.isoChars separator) := by
  unfold isoChars
  cases m.offset with
  | none =>
    rw [offsetText, List.append_nil]
    exact ((endsInDigit_clockText _ _).cons separator).append_left _
  | some o => exact ((endsInDigit_clockText _ _).cons _).append_left _

theorem exists_isoChars_eq_cons (separator : Char) :
    ∃ first rest, m.isoChars separator = first :: rest ∧ first.isDigit = true := by
  obtain ⟨first, rest, h, hdigit⟩ := exists_padded_eq_cons 4 m.date.year
  simp only [isoChars, Date.iso, h, List.cons_append]
  exact ⟨first, _, rfl, hdigit⟩

/-- The texts of a moment: the one that it is printed as, with any character between date and time,
and the same with a Z in the place of a distance of zero from UTC. -/
inductive Written (m : Moment) : List Char → Prop
  | printed (separator : Char) : Written m (m.isoChars separator)
  | zulu {separator : Char} {cs : List Char} : m.offset = some 0 →
      cs ++ "+00:00".toList = m.isoChars separator → Written m (cs ++ ['Z'])

theorem Written.ne_nil {cs : List Char} (h : m.Written cs) : cs ≠ [] := by
  cases h with
  | printed separator =>
    obtain ⟨first, rest, h, -⟩ := m.exists_isoChars_eq_cons separator
    rw [h]
    exact List.cons_ne_nil first rest
  | zulu => exact List.append_ne_nil_of_right_ne_nil _ (List.cons_ne_nil _ _)

/-- The printed text is what is read in the place of any text of the moment. -/
theorem Written.isoText {cs before after : List Char} (h : m.Written cs)
    (hbefore : ∀ c ∈ before, Text.isBlank c = true)
    (hafter : ∀ c ∈ after, Text.isBlank c = true) :
    ∃ separator, Moment.isoText (String.ofList (before ++ cs ++ after)) =
      String.ofList (m.isoChars separator) := by
  cases h with
  | printed separator =>
    obtain ⟨first, rest, hfirst, hfirst'⟩ := m.exists_isoChars_eq_cons separator
    obtain ⟨front, last, hlast, hlast'⟩ := m.endsInDigit_isoChars separator
    have htrim := Text.trim_blanks hbefore hafter hfirst (Text.isBlank_of_isDigit hfirst') hlast
      (Text.isBlank_of_isDigit hlast')
    refine ⟨separator, ?_⟩
    rw [Moment.isoText, htrim, String.toList_ofList, hlast, List.reverse_append]
    split
    · next heq =>
      cases heq
      cases hlast'
    · rfl
  | @zulu separator cs hoffset hcs =>
    obtain ⟨first, rest, hfirst, hfirst'⟩ := m.exists_isoChars_eq_cons separator
    have hcons : ∃ rest', cs ++ ['Z'] = first :: rest' := by
      rw [hfirst] at hcs
      cases cs with
      | nil =>
        have hsign : "+00:00".toList = ['+', '0', '0', ':', '0', '0'] := by decide
        rw [List.nil_append, hsign] at hcs
        cases hcs
        cases hfirst'
      | cons c cs' =>
        cases hcs
        exact ⟨cs' ++ ['Z'], rfl⟩
    obtain ⟨rest', hcons⟩ := hcons
    have htrim := Text.trim_blanks hbefore hafter hcons (Text.isBlank_of_isDigit hfirst') rfl
      (by decide)
    have hreverse : (cs ++ ['Z']).reverse = 'Z' :: cs.reverse := by
      rw [List.reverse_append, List.reverse_singleton, List.singleton_append]
    refine ⟨separator, ?_⟩
    rw [Moment.isoText, htrim, String.toList_ofList, hreverse]
    change String.ofList cs.reverse.reverse ++ "+00:00" = _
    rw [List.reverse_reverse, ← hcs, String.ofList_append, String.ofList_toList]

end Moment

end Calendar

namespace Value

theorem parseMoment_text {s : String} (h : s ≠ "") :
    (text s).parseMoment = (do .ok (.moment (← Moment.parseText s))) := by
  unfold parseMoment
  split
  · next heq => cases heq
  · next heq => exact absurd (Value.text.inj heq) h
  · next heq => cases heq
  · next heq => cases heq
  · next heq => cases heq
  · rfl

/-- Every text of a moment whose distance from UTC is one of whole seconds is read as that moment on
a clock of UTC, with a failure only where the moment has no reading on one. So the text of a moment
that is on a clock of UTC already is cast to a date without loss. -/
theorem parseMoment_written {m : Moment} {cs before after : List Char}
    (hwhole : ∀ o ∈ m.offset, (second : Int) ∣ o) (hcs : m.Written cs)
    (hbefore : ∀ c ∈ before, Text.isBlank c = true)
    (hafter : ∀ c ∈ after, Text.isBlank c = true) :
    (text (String.ofList (before ++ cs ++ after))).parseMoment =
        (do .ok (.moment (← m.toUtc))) ∧
      (m.offset = some 0 →
        (text (String.ofList (before ++ cs ++ after))).cast .date = .ok (.moment m)) := by
  obtain ⟨separator, hiso⟩ := hcs.isoText hbefore hafter
  have hread : Moment.ofIso (String.ofList (m.isoChars separator)) = .ok m := by
    rw [Moment.ofIso, String.toList_ofList]
    exact m.ofIsoChars_isoChars separator hwhole
  have hparse : Moment.parseText (String.ofList (before ++ cs ++ after)) = m.toUtc := by
    rw [Moment.parseText_eq, hiso, hread]
    rfl
  have hne : String.ofList (before ++ cs ++ after) ≠ "" := by
    intro hempty
    have hnil : before ++ cs ++ after = [] := by
      rw [← String.toList_ofList (l := before ++ cs ++ after), hempty]
      rfl
    exact hcs.ne_nil (List.append_eq_nil_iff.1 (List.append_eq_nil_iff.1 hnil).1).2
  have hvalue := parseMoment_text hne
  rw [hparse] at hvalue
  constructor
  · exact hvalue
  · intro hutc
    rw [Moment.toUtc_self hutc] at hvalue
    exact hvalue

/-- A leap day on a clock that is all but a day behind UTC, with blanks around it, and the same day
with a Z. -/
theorem parseMoment_written_leap_day :
    (text " 2024-02-29 00:00:00.000001-23:59:59\n").parseMoment =
        .ok (.moment ⟨738944 * day + 86399 * second + 1, some 0, by decide, by decide⟩) ∧
      (text "2024-02-29T00:00:00Z").cast .date =
        .ok (.moment ⟨738944 * day, some 0, by decide, by decide⟩) := by
  constructor
  · let m : Moment := ⟨738944 * day + 1, some (-(86399 * second)), by decide, by decide⟩
    have htext : " 2024-02-29 00:00:00.000001-23:59:59\n" =
        String.ofList ([' '] ++ m.isoChars ' ' ++ ['\n']) := by decide +kernel
    have hutc : m.toUtc? = some ⟨738944 * day + 86399 * second + 1, some 0, by decide, by decide⟩ :=
      by decide +kernel
    rw [htext, (@parseMoment_written m _ [' '] ['\n'] (by decide) (.printed ' ')
      (List.forall_mem_singleton.2 rfl) (List.forall_mem_singleton.2 rfl)).1, Moment.toUtc, hutc]
    rfl
  · let m : Moment := ⟨738944 * day, some 0, by decide, by decide⟩
    have hzulu : m.Written ("2024-02-29T00:00:00".toList ++ ['Z']) :=
      @Calendar.Moment.Written.zulu m 'T' _ rfl (by decide +kernel)
    have htext : "2024-02-29T00:00:00Z" =
        String.ofList ([] ++ ("2024-02-29T00:00:00".toList ++ ['Z']) ++ []) := by decide +kernel
    rw [htext]
    have hblank : ∀ c ∈ ([] : List Char), Text.isBlank c = true := List.forall_mem_nil _
    exact (@parseMoment_written m _ [] [] (by decide) hzulu hblank hblank).2 rfl

end Value

end DocumentMapper
