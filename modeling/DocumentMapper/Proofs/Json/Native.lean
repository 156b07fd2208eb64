import DocumentMapper.Json.Reader
import DocumentMapper.Proofs.Outcome
import Mathlib.Data.List.Basic
import Mathlib.Tactic.SplitIfs

/-!
# The values that JSON has

Whatever is read from JSON is null, a truth value, a number or a text, or a list or a dictionary of
such with texts for keys. No moment, tuple or record is ever read, and what was read can be written
again.
-/

namespace DocumentMapper.Json

open Outcome

/-- The values that JSON has. -/
inductive Native : Value → Prop
  | null : Native .null
  | bool (b : Bool) : Native (.bool b)
  | int (n : Int) : Native (.int n)
  | float (x : Float) : Native (.float x)
  | text (s : String) : Native (.text s)
  | list {items : List Value} : (∀ v ∈ items, Native v) → Native (.list items)
  | dict {entries : Document} : (∀ e ∈ entries, ∃ key, e.1 = .text key) →
      (∀ e ∈ entries, Native e.2) → Native (.dict entries)

variable {cs rest : List Char} {v : Value} {d : Document}

theorem Native.nil : Native (.dict []) :=
  .dict (List.forall_mem_nil _) (List.forall_mem_nil _)

theorem native_cons {key : Value} :
    Native (.dict ((key, v) :: d)) ↔ (∃ s, key = .text s) ∧ Native v ∧ Native (.dict d) := by
  constructor
  · rintro (_ | _)
    rename_i hkeys hvalues
    rw [List.forall_mem_cons] at hkeys hvalues
    exact ⟨hkeys.1, hvalues.1, .dict hkeys.2 hvalues.2⟩
  · rintro ⟨hkey, hv, _ | _⟩
    rename_i hkeys hvalues
    exact .dict (List.forall_mem_cons.2 ⟨hkey, hkeys⟩) (List.forall_mem_cons.2 ⟨hv, hvalues⟩)

theorem Native.putField (hd : Native (.dict d)) (hv : Native v) (name : String) :
    Native (.dict (d.putField name v)) := by
  show Native (.dict (Document.put (.text name) v d))
  induction d with
  | nil => exact native_cons.2 ⟨⟨name, rfl⟩, hv, .nil⟩
  | cons e rest ih =>
    obtain ⟨hkey, hold, hrest⟩ := native_cons.1 hd
    unfold Document.put
    split
    · exact native_cons.2 ⟨hkey, hv, hrest⟩
    · exact native_cons.2 ⟨hkey, hold, ih hrest⟩

/-! ## Reading -/

theorem native_of_mem_words {word : List Char × Value} (h : word ∈ words) : Native word.2 := by
  simp only [words, List.mem_cons, List.not_mem_nil, or_false] at h
  rcases h with rfl | rfl | rfl | rfl | rfl | rfl <;> constructor

theorem native_of_readNumeral (h : readNumeral cs = .ok (v, rest)) : Native v := by
  unfold readNumeral at h
  simp only at h
  split_ifs at h <;> cases h <;> constructor

/-- The readers of values, of elements and of members call each other with less fuel. -/
theorem native_of_readers (fuel : Nat) :
    (∀ cs v rest, readValue fuel cs = .ok (v, rest) → Native v) ∧
    (∀ cs items rest, readItems fuel cs = .ok (items, rest) → ∀ v ∈ items, Native v) ∧
    ∀ entries cs d rest, readMembers fuel entries cs = .ok (d, rest) →
      Native (.dict entries) → Native (.dict d) := by
  induction fuel with
  | zero =>
    refine ⟨fun cs v rest h => ?_, fun cs items rest h => ?_, fun entries cs d rest h => ?_⟩
    · simp [readValue] at h
    · simp [readItems] at h
    · simp [readMembers] at h
  | succ fuel ih =>
    obtain ⟨hvalue, hitems, hmembers⟩ := ih
    refine ⟨fun cs v rest h => ?_, fun cs items rest h => ?_,
      fun entries cs d rest h hentries => ?_⟩
    · cases cs with
      | nil => simp [readValue] at h
      | cons c cs =>
        unfold readValue at h
        split_ifs at h
        · obtain ⟨⟨s, rest'⟩, -, h⟩ := bind_eq_ok.1 h
          cases h
          exact .text s
        · split at h
          · cases h
            exact .list (List.forall_mem_nil _)
          · obtain ⟨⟨items, rest'⟩, hread, h⟩ := bind_eq_ok.1 h
            cases h
            exact .list (hitems _ _ _ hread)
        · split at h
          · cases h
            exact .nil
          · obtain ⟨⟨d, rest'⟩, hread, h⟩ := bind_eq_ok.1 h
            cases h
            exact hmembers _ _ _ _ hread .nil
        · split at h
          · next hfound =>
            cases h
            exact native_of_mem_words (List.mem_of_find?_eq_some hfound)
          · exact native_of_readNumeral h
    · unfold readItems at h
      obtain ⟨⟨v, rest'⟩, hread, h⟩ := bind_eq_ok.1 h
      have hv := hvalue _ _ _ hread
      simp only at h
      split at h
      · cases h
        exact List.forall_mem_singleton.2 hv
      · obtain ⟨⟨more, rest''⟩, hmore, h⟩ := bind_eq_ok.1 h
        cases h
        exact List.forall_mem_cons.2 ⟨hv, hitems _ _ _ hmore⟩
      · cases h
    · unfold readMembers at h
      split at h
      · obtain ⟨⟨key, rest'⟩, -, h⟩ := bind_eq_ok.1 h
        simp only at h
        split at h
        · obtain ⟨⟨v, rest''⟩, hread, h⟩ := bind_eq_ok.1 h
          have hput := hentries.putField (hvalue _ _ _ hread) key
          simp only at h
          split at h
          · cases h
            exact hput
          · exact hmembers _ _ _ _ h hput
          · cases h
        · cases h
      · cases h

theorem native_of_read {s : String} (h : read s = .ok v) : Native v := by
  unfold read at h
  simp only at h
  split at h
  · cases h
  · split at h
    · cases h
    · cases h
    · next hread =>
      split at h
      · cases h
        exact (native_of_readers _).1 _ _ _ hread
      · cases h

end DocumentMapper.Json
