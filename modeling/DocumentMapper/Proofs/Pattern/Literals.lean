import DocumentMapper.Filter.Clause
import DocumentMapper.Pattern.Compile
import DocumentMapper.Text.Printable
import Mathlib

/-!
# Escaped texts as patterns

An escaped text is read back token by token: an escaped character stands for itself, and so does
every other one, since none of those that mean something in a pattern is left without a backslash.
What is escaped is never a letter or a digit, which would mean something because of the backslash.
So escaping loses nothing, goes character by character, and gives a pattern that is accepted as it
is, also with an anchor at one of its ends.
-/

namespace DocumentMapper

/-! ## Special characters -/

/-- Whether a character may be a letter or a digit. In ASCII these are known; in the rest of the
scripts all of them are printable. -/
def Text.mayBeWord (c : Char) : Bool :=
  c.isAlphanum || (0x80 ≤ c.toNat && isPrintable c)

namespace Pattern

open Scan

variable {c d : Char} {cs ds : List Char} {v w : Value} {tokens : List Token}

theorem isSpecial_iff : isSpecial c = true ↔ c ∈ metacharacters ∨ Text.isBlank c = true := by
  simp [isSpecial]

theorem isSpecial_eq_false_iff :
    isSpecial c = false ↔ c ∉ metacharacters ∧ Text.isBlank c = false := by
  simp [isSpecial]

theorem ne_of_isSpecial (hc : isSpecial c = true) (hd : isSpecial d = false) : c ≠ d := by
  rintro rfl
  rw [hc] at hd
  cases hd

theorem mayBeWord_of_mem_metacharacters (h : c ∈ metacharacters) : Text.mayBeWord c = false := by
  have hnone : metacharacters.any Text.mayBeWord = false := by decide
  exact Bool.eq_false_iff.2 (List.any_eq_false.1 hnone c h)

theorem not_isPrintable_of_run {first last : Nat} (hrun : (first, last) ∈ Text.unprintableRuns)
    (hfirst : first ≤ c.toNat) (hlast : c.toNat ≤ last) : Text.isPrintable c = false := by
  rw [Text.isPrintable, Bool.not_eq_false', List.any_eq_true]
  exact ⟨(first, last), hrun, by simp [hfirst, hlast]⟩

/-- Of the blanks only the plain one is printable. -/
theorem not_isPrintable_of_isBlank (h : Text.isBlank c = true) (hc : 0x80 ≤ c.toNat) :
    Text.isPrintable c = false := by
  simp only [Text.isBlank, Bool.or_eq_true, Bool.and_eq_true, decide_eq_true_eq, beq_iff_eq] at h
  have hcases : (0x7f ≤ c.toNat ∧ c.toNat ≤ 0xa0) ∨ (0x1680 ≤ c.toNat ∧ c.toNat ≤ 0x1680) ∨
      (0x1fff ≤ c.toNat ∧ c.toNat ≤ 0x200f) ∨ (0x2028 ≤ c.toNat ∧ c.toNat ≤ 0x202f) ∨
      (0x205f ≤ c.toNat ∧ c.toNat ≤ 0x206f) ∨ (0x2ffc ≤ c.toNat ∧ c.toNat ≤ 0x3000) := by
    omega
  rcases hcases with ⟨hfirst, hlast⟩ | ⟨hfirst, hlast⟩ | ⟨hfirst, hlast⟩ | ⟨hfirst, hlast⟩ |
    ⟨hfirst, hlast⟩ | ⟨hfirst, hlast⟩
  all_goals exact not_isPrintable_of_run (by decide +kernel) hfirst hlast

theorem mayBeWord_of_isSpecial (h : isSpecial c = true) : Text.mayBeWord c = false := by
  rcases isSpecial_iff.1 h with hmem | hblank
  · exact mayBeWord_of_mem_metacharacters hmem
  · rw [Text.mayBeWord, Text.isAlphanum_of_isBlank hblank, Bool.false_or, Bool.and_eq_false_iff,
      decide_eq_false_iff_not]
    by_cases hc : 0x80 ≤ c.toNat
    · exact .inr (not_isPrintable_of_isBlank hblank hc)
    · exact .inl hc

/-! ## Reading an escaped text -/

/-- The character that a token stands for. -/
def Token.char : Token → Char
  | plain c => c
  | escaped c => c

/-- How a character is written in an escaped text. -/
def tokenOf (c : Char) : Token :=
  if isSpecial c then .escaped c else .plain c

theorem char_tokenOf (c : Char) : (tokenOf c).char = c := by
  unfold tokenOf
  split <;> rfl

theorem map_char_tokenOf (cs : List Char) : (cs.map tokenOf).map Token.char = cs := by
  simp [Function.comp_def, char_tokenOf]

theorem isSpecial_of_plain_mem (h : .plain c ∈ cs.map tokenOf) : isSpecial c = false := by
  obtain ⟨d, -, hd⟩ := List.mem_map.1 h
  unfold tokenOf at hd
  split at hd
  · cases hd
  · next hspecial =>
    cases hd
    exact Bool.eq_false_iff.2 hspecial

theorem isSpecial_of_escaped_mem (h : .escaped c ∈ cs.map tokenOf) : isSpecial c = true := by
  obtain ⟨d, -, hd⟩ := List.mem_map.1 h
  unfold tokenOf at hd
  split at hd
  · next hspecial =>
    cases hd
    exact hspecial
  · cases hd

theorem tokens?_cons_of_ne (h : c ≠ '\\') (cs : List Char) :
    tokens? (c :: cs) = (tokens? cs).map (.plain c :: ·) := by
  cases cs <;> simp [tokens?, h]

/-- An escaped text is read token by token, and then what comes after it. -/
theorem tokens?_escapeChars_append (cs ds : List Char) :
    tokens? (escapeChars cs ++ ds) = (tokens? ds).map (cs.map tokenOf ++ ·) := by
  induction cs with
  | nil => simp [escapeChars]
  | cons c cs ih =>
    rw [escapeChars, List.flatMap_cons, List.append_assoc]
    change tokens? (_ ++ (escapeChars cs ++ ds)) = _
    by_cases h : isSpecial c = true
    · simp [h, tokens?, ih, tokenOf, Function.comp_def]
    · have hne : c ≠ '\\' := (ne_of_isSpecial (by decide) (Bool.eq_false_iff.2 h)).symm
      simp [h, tokens?_cons_of_ne hne, ih, tokenOf, Function.comp_def]

theorem tokens?_escapeChars (cs : List Char) :
    tokens? (escapeChars cs) = some (cs.map tokenOf) := by
  have h := tokens?_escapeChars_append cs []
  rwa [List.append_nil, tokens?, Option.map_some, List.append_nil] at h

theorem escapeChars_injective : Function.Injective escapeChars := by
  intro cs ds h
  have htokens : cs.map tokenOf = ds.map tokenOf := by
    apply Option.some.inj
    rw [← tokens?_escapeChars, ← tokens?_escapeChars, h]
  rw [← map_char_tokenOf cs, htokens, map_char_tokenOf]

theorem escapeChars_append (cs ds : List Char) :
    escapeChars (cs ++ ds) = escapeChars cs ++ escapeChars ds :=
  List.flatMap_append

theorem toList_escape (v : Value) : (escape v).toList = escapeChars v.display.toList :=
  String.toList_ofList

theorem display_eq_of_escape_eq (h : escape w = escape v) : w.display = v.display := by
  have hchars : escapeChars w.display.toList = escapeChars v.display.toList := by
    rw [← toList_escape, ← toList_escape, h]
  exact String.toList_injective (escapeChars_injective hchars)

theorem escape_append (v w : Value) :
    escape (.text (v.display ++ w.display)) = escape v ++ escape w := by
  apply String.toList_injective
  rw [String.toList_append, toList_escape, toList_escape, toList_escape, ← escapeChars_append]
  simp [Value.display]

/-! ## Checking an escaped text -/

variable {fuel : Nat} {first : Bool} {before : Width} {last : Last}

theorem run_charEscape (h : isSpecial c = true) (s : Progress) :
    (charEscape c).run s = some (some c.toNat, s) := by
  have hword := (Bool.or_eq_false_iff.1 (mayBeWord_of_isSpecial h)).1
  unfold charEscape
  split
  all_goals try exact absurd rfl (ne_of_isSpecial h (by decide))
  rw [Char.isAlphanum] at hword
  rw [if_neg (by simp [hword])]
  rfl

theorem notMem_of_isSpecial (h : isSpecial c = true) (hcs : cs.any isSpecial = false) :
    cs.contains c = false := by
  rw [List.contains_eq_mem, decide_eq_false_iff_not]
  intro hmem
  exact List.any_eq_false.1 hcs c hmem h

/-- A special character after a backslash is one item and nothing else. -/
theorem run_escapeItem (h : isSpecial c = true) (s : Progress) :
    (escapeItem c).run s = some (.item .one, s) := by
  have hword := (Bool.or_eq_false_iff.1 (mayBeWord_of_isSpecial h)).1
  have hdigit : c.isDigit = false := (Bool.or_eq_false_iff.1 hword).2
  have hanchor : "AbBZ".toList.contains c = false := notMem_of_isSpecial h (by decide)
  have hcategory : isCategory c = false := notMem_of_isSpecial h (by decide)
  have hzero : c ≠ '0' := ne_of_isSpecial h (by decide)
  unfold escapeItem
  rw [if_neg (Bool.eq_false_iff.1 hanchor), if_neg (Bool.eq_false_iff.1 hcategory), if_neg hzero,
    if_neg (Bool.eq_false_iff.1 hdigit), StateT.run_bind, run_charEscape h]
  rfl

/-- The width of a sequence together with its last item. -/
def covered (before : Width) : Last → Width
  | .item w => before.add w
  | _ => before

theorem run_sequence_escaped (h : isSpecial c = true) (s : Progress) :
    (sequence (fuel + 1) false first before last).run { s with rest := .escaped c :: tokens } =
      (sequence fuel false first (covered before last) (.item .one)).run
        { s with rest := tokens } := by
  calc
    _ = (escapeItem c >>= sequence fuel false first (covered before last)).run
          { s with rest := tokens } := rfl
    _ = _ := by
      rw [StateT.run_bind, run_escapeItem h]
      rfl

theorem run_sequence_plain (h : isSpecial c = false) (s : Progress) :
    (sequence (fuel + 1) false first before last).run { s with rest := .plain c :: tokens } =
      (sequence fuel false first (covered before last) (.item .one)).run
        { s with rest := tokens } := by
  have hne : ∀ d : Char, isSpecial d = true → c ≠ d := fun d hd => (ne_of_isSpecial hd h).symm
  conv =>
    lhs
    unfold sequence
  simp only [peek?, next, next?, StateT.run_bind, bind_assoc, pure_bind, StateT.run_get,
    List.head?_cons, List.drop_one, Option.pure_def, Option.bind_eq_bind, Option.bind_some]
  split
  · next heq => cases heq
  · next heq =>
    cases heq
    exact absurd rfl (hne '|' (by decide))
  · next heq =>
    cases heq
    exact absurd rfl (hne ')' (by decide))
  · next heq => cases heq
  · next heq =>
    cases heq
    simp only [StateT.run_bind, StateT.run_get, List.head?_cons, List.tail_cons, StateT.run_set,
      StateT.run_pure, Option.pure_def, Option.bind_eq_bind, Option.bind_some, Bool.false_and,
      Bool.false_eq_true, if_false, or_self, hne '[' (by decide), hne '^' (by decide),
      hne '$' (by decide), hne '*' (by decide), hne '+' (by decide), hne '?' (by decide),
      hne '\x7b' (by decide), hne '(' (by decide)]
    rfl

/-- Tokens that are read one by one: those of escaped texts, and anchors. -/
inductive Token.Simple : Token → Prop
  | plain {c : Char} : isSpecial c = false → Simple (.plain c)
  | escaped {c : Char} : isSpecial c = true → Simple (.escaped c)
  | start : Simple (.plain '^')
  | finish : Simple (.plain '$')

theorem exists_run_sequence_cons {t : Token} (ht : t.Simple) (s : Progress) :
    ∃ item, (sequence (fuel + 1) false first before last).run { s with rest := t :: tokens } =
      (sequence fuel false first (covered before last) item).run { s with rest := tokens } := by
  cases ht with
  | plain h => exact ⟨_, run_sequence_plain h s⟩
  | escaped h => exact ⟨_, run_sequence_escaped h s⟩
  | start => exact ⟨.anchor, rfl⟩
  | finish => exact ⟨.anchor, rfl⟩

/-- Simple tokens are read to the end, whatever came before them, and leave no other trace. -/
theorem exists_run_sequence (htokens : ∀ t ∈ tokens, t.Simple) (hfuel : tokens.length < fuel)
    (s : Progress) : ∃ w, (sequence fuel false first before last).run { s with rest := tokens } =
      some (w, { s with rest := [] }) := by
  induction tokens generalizing fuel before last with
  | nil =>
    obtain ⟨fuel, rfl⟩ := Nat.exists_eq_add_one_of_ne_zero (Nat.ne_of_gt hfuel)
    exact ⟨covered before last, rfl⟩
  | cons t tokens ih =>
    rw [List.forall_mem_cons] at htokens
    rw [List.length_cons] at hfuel
    obtain ⟨fuel, rfl⟩ := Nat.exists_eq_add_one_of_ne_zero (Nat.ne_of_gt (Nat.zero_lt_of_lt hfuel))
    have hstep : ∃ item, (sequence (fuel + 1) false first before last).run
        { s with rest := t :: tokens } =
          (sequence fuel false first (covered before last) item).run { s with rest := tokens } :=
      exists_run_sequence_cons htokens.1 s
    obtain ⟨item, hstep⟩ := hstep
    rw [hstep]
    exact ih htokens.2 (by omega)

theorem checked_of_tokens {p : Pattern} (hverbose : p.verbose = false)
    (htokens : tokens? p.source.toList = some tokens) (hsimple : ∀ t ∈ tokens, t.Simple) :
    p.checked = .ok p := by
  have hrun : ∃ w, (sequence (4 * tokens.length + 3) false true .zero .nothing).run
      ⟨tokens, [], [], none, [], p⟩ = some (w, ⟨[], [], [], none, [], p⟩) :=
    exists_run_sequence hsimple (by omega) ⟨tokens, [], [], none, [], p⟩
  obtain ⟨w, hrun⟩ := hrun
  have halternatives : (alternatives (4 * tokens.length + 4) false true).run
      ⟨tokens, [], [], none, [], p⟩ = some (w, ⟨[], [], [], none, [], p⟩) := by
    rw [alternatives, StateT.run_bind, hrun]
    rfl
  unfold checked
  rw [htokens, hverbose]
  simp only [Option.bind_some, StateT.run_bind, StateT.run_get, Option.pure_def,
    Option.bind_eq_bind, halternatives]
  rfl

theorem simple_tokenOf (c : Char) : (tokenOf c).Simple := by
  unfold tokenOf
  split
  · next h => exact .escaped h
  · next h => exact .plain (Bool.eq_false_iff.2 h)

theorem simple_of_mem_map (cs : List Char) : ∀ t ∈ cs.map tokenOf, t.Simple := by
  intro t ht
  obtain ⟨c, -, rfl⟩ := List.mem_map.1 ht
  exact simple_tokenOf c

theorem tokens?_start (v : Value) : tokens? ("^" ++ escape v).toList =
    some (.plain '^' :: v.display.toList.map tokenOf) := by
  rw [String.toList_append, toList_escape]
  change tokens? ('^' :: escapeChars v.display.toList) = _
  rw [tokens?_cons_of_ne (by decide), tokens?_escapeChars, Option.map_some]

theorem tokens?_finish (v : Value) : tokens? (escape v ++ "$").toList =
    some (v.display.toList.map tokenOf ++ [.plain '$']) := by
  rw [String.toList_append, toList_escape, tokens?_escapeChars_append]
  rfl

/-- The pattern that is made of a value is accepted and sets no more flags; a pattern is taken as it
is. -/
theorem literalFor_checked (anchor : Anchor) (ignoreCase : Bool) (v : Value) :
    v = .pattern (literalFor anchor ignoreCase v) ∨
      (literalFor anchor ignoreCase v).checked = .ok (literalFor anchor ignoreCase v) := by
  unfold literalFor
  split
  · exact .inl rfl
  · right
    have hsimple := simple_of_mem_map v.display.toList
    cases anchor with
    | anywhere =>
      refine checked_of_tokens rfl ?_ hsimple
      change tokens? (escape v).toList = _
      rw [toList_escape, tokens?_escapeChars]
    | start =>
      apply checked_of_tokens rfl
      · exact tokens?_start v
      · exact List.forall_mem_cons.2 ⟨.start, hsimple⟩
    | finish =>
      apply checked_of_tokens rfl
      · exact tokens?_finish v
      · exact List.forall_mem_append.2 ⟨hsimple, List.forall_mem_singleton.2 .finish⟩

/-- An escaped text, read token by token, is the text itself: what has no backslash means nothing in
a pattern, and what has one is no letter and no digit. So escaping keeps texts apart and goes
through a text part by part, and no operator that searches for a text makes a pattern that would be
refused. -/
theorem escape_literal (v : Value) :
    (∃ tokens, tokens? (escape v).toList = some tokens ∧
      tokens.map Token.char = v.display.toList ∧
      (∀ c, .plain c ∈ tokens → c ∉ metacharacters ∧ Text.isBlank c = false) ∧
      ∀ c, .escaped c ∈ tokens → Text.mayBeWord c = false) ∧
    (∀ w : Value, escape w = escape v → w.display = v.display) ∧
    (∀ w : Value, escape (.text (v.display ++ w.display)) = escape v ++ escape w) ∧
    ∀ operator ∈ [Operator.like, .startsWith, .endsWith], ∃ p,
      Filter.expression operator v = .ok (.single "$regex" (.pattern p)) ∧
        (v = .pattern p ∨ p.checked = .ok p) := by
  refine ⟨⟨v.display.toList.map tokenOf, ?_, map_char_tokenOf _, ?_, ?_⟩, ?_, ?_, ?_⟩
  · rw [toList_escape, tokens?_escapeChars]
  · intro c hc
    exact isSpecial_eq_false_iff.1 (isSpecial_of_plain_mem hc)
  · intro c hc
    exact mayBeWord_of_isSpecial (isSpecial_of_escaped_mem hc)
  · exact fun w => display_eq_of_escape_eq
  · exact escape_append v
  · simp only [List.forall_mem_cons]
    refine ⟨⟨_, rfl, ?_⟩, ⟨_, rfl, ?_⟩, ⟨_, rfl, ?_⟩, List.forall_mem_nil _⟩
    · exact literalFor_checked .anywhere true v
    · exact literalFor_checked .start false v
    · exact literalFor_checked .finish false v

end Pattern

end DocumentMapper
