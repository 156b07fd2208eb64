import DocumentMapper.Json.Reader
import DocumentMapper.Proofs.Outcome
import Mathlib.Data.List.Basic
import Mathlib.Tactic.SplitIfs

/-!
# What is left when JSON has been read

A reader leaves no more than it was given, and a text in quotes is shorter than the JSON it is read
from, since each of its characters takes one at least and the quotes take two more. So no text is
JSON of itself.
-/

namespace DocumentMapper.Json

open Outcome

variable {cs rest : List Char} {s t : String} {v : Value}

theorem length_of_readUnits {c : Char} (h : readUnits cs = .ok (c, rest)) :
    rest.length ≤ cs.length := by
  unfold readUnits at h
  simp only at h
  split at h
  · cases h
  · split at h
    · cases h
    · split at h
      · next heq =>
        have hlength := congrArg List.length heq
        simp only [List.length_drop, List.length_cons] at hlength
        split at h
        · split at h
          · cases h
          · split at h <;> obtain ⟨-, rfl⟩ := Prod.mk.inj (Except.ok.inj h) <;>
              simp only [List.length_drop] <;> omega
        · obtain ⟨-, rfl⟩ := Prod.mk.inj (Except.ok.inj h)
          simp only [List.length_drop]
          omega
      · obtain ⟨-, rfl⟩ := Prod.mk.inj (Except.ok.inj h)
        simp only [List.length_drop]
        omega

/-- Every character that was read takes one at least, and the closing quote one more. -/
theorem length_of_readChars {opening fuel : Nat} {read : List Char}
    (h : readChars opening fuel read cs = .ok (t, rest)) :
    t.length + rest.length + 1 ≤ read.length + cs.length := by
  induction fuel generalizing read cs with
  | zero => cases h
  | succ fuel ih =>
    cases cs with
    | nil => cases h
    | cons c cs =>
      unfold readChars at h
      split_ifs at h
      · cases h
        simp only [String.length_ofList, List.length_reverse, List.length_cons]
        omega
      · split at h
        · cases h
        · obtain ⟨⟨c', rest'⟩, hunits, h⟩ := bind_eq_ok.1 h
          have hleft := length_of_readUnits hunits
          have hread := ih h
          simp only [List.length_cons] at hread ⊢
          omega
        · split at h
          · have hread := ih h
            simp only [List.length_cons] at hread ⊢
            omega
          · cases h
      · have hread := ih h
        simp only [List.length_cons] at hread ⊢
        omega

theorem length_of_readText (h : readText cs = .ok (t, rest)) :
    t.length + rest.length + 1 ≤ cs.length := by
  have hread := length_of_readChars h
  simpa using hread

/-- A value that is a text was read from between quotes. -/
theorem length_of_readValue {fuel : Nat} (h : readValue fuel cs = .ok (.text t, rest)) :
    t.length + 2 ≤ cs.length := by
  cases fuel with
  | zero => simp [readValue] at h
  | succ fuel =>
    cases cs with
    | nil => simp [readValue] at h
    | cons c cs =>
      unfold readValue at h
      split_ifs at h
      · obtain ⟨⟨t', rest'⟩, htext, h⟩ := bind_eq_ok.1 h
        cases h
        have hlength := length_of_readText htext
        rw [List.length_cons]
        omega
      · split at h
        · cases h
        · obtain ⟨⟨items, rest'⟩, -, h⟩ := bind_eq_ok.1 h
          cases h
      · split at h
        · cases h
        · obtain ⟨⟨entries, rest'⟩, -, h⟩ := bind_eq_ok.1 h
          cases h
      · split at h
        · next hfound =>
          obtain ⟨rfl, -⟩ := Prod.mk.inj (Except.ok.inj h)
          have hword := List.mem_of_find?_eq_some hfound
          simp [words] at hword
        · unfold readNumeral at h
          simp only at h
          split_ifs at h <;> cases h

/-- A text is shorter than the JSON that it is read from. -/
theorem length_of_read (h : read s = .ok (.text t)) : t.length + 2 ≤ s.length := by
  unfold read at h
  simp only at h
  split at h
  · cases h
  · split at h
    · cases h
    · cases h
    · next v rest hvalue =>
      have hskipped : (skipSpace s.toList).length ≤ s.length := by
        rw [← String.length_toList]
        exact (List.dropWhile_sublist isSpace).length_le
      split at h
      · cases h
        exact Nat.le_trans (length_of_readValue hvalue) hskipped
      · cases h

end DocumentMapper.Json
