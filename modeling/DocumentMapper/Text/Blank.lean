/-!
# White space

A blank is any white-space character of any script, together with the four information
separators U+001C to U+001F. Trimming removes blanks at both ends and nothing else.
-/

namespace DocumentMapper.Text

/-- The zero-width space, the byte order mark and the Mongolian vowel separator are not blanks. -/
def isBlank (c : Char) : Bool :=
  let n := c.toNat
  (0x09 ≤ n && n ≤ 0x0d) || (0x1c ≤ n && n ≤ 0x20) || n == 0x85 || n == 0xa0 || n == 0x1680 ||
    (0x2000 ≤ n && n ≤ 0x200a) || n == 0x2028 || n == 0x2029 || n == 0x202f || n == 0x205f ||
    n == 0x3000

theorem isAlphanum_of_isBlank {c : Char} (h : isBlank c = true) : c.isAlphanum = false := by
  simp only [isBlank, Bool.or_eq_true, Bool.and_eq_true, decide_eq_true_eq, beq_iff_eq] at h
  rw [Bool.eq_false_iff]
  intro hc
  rcases Bool.or_eq_true_iff.1 hc with halpha | hdigit
  · rcases Bool.or_eq_true_iff.1 halpha with hupper | hlower
    · have hge : 65 ≤ c.toNat := (of_decide_eq_true hupper).1
      have hle : c.toNat ≤ 90 := (of_decide_eq_true hupper).2
      omega
    · have hge : 97 ≤ c.toNat := of_decide_eq_true (Bool.and_eq_true_iff.1 hlower).1
      have hle : c.toNat ≤ 122 := of_decide_eq_true (Bool.and_eq_true_iff.1 hlower).2
      omega
  · have hge : 48 ≤ c.toNat := of_decide_eq_true (Bool.and_eq_true_iff.1 hdigit).1
    have hle : c.toNat ≤ 57 := of_decide_eq_true (Bool.and_eq_true_iff.1 hdigit).2
    omega

/-- The characters of a text without those at either end that satisfy `p`. -/
def trimBoth (p : Char → Bool) (cs : List Char) : List Char :=
  ((cs.dropWhile p).reverse.dropWhile p).reverse

/-- The text without the blanks at its ends. -/
def trim (s : String) : String :=
  String.ofList (trimBoth isBlank s.toList)

end DocumentMapper.Text
