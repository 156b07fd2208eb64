import DocumentMapper.Proofs.Pattern.Literals

/-!
# Searching a text for a pattern

A pattern of literal characters and anchors asks for one thing after another, and it is found in a
text if there is a place from which on the text has them all. A caret asks for the start of the
text. A dollar sign asks for its end, and the place before a last line feed passes for the end too.

So a filter for the start of a text selects the texts that begin with a value, but one for the end
also selects texts that end with the value and a line feed. Only for values that consist of line
feeds does that make no difference.
-/

namespace DocumentMapper

namespace Pattern

/-- What a token of a pattern asks for. -/
inductive Item where
  | char (c : Char)
  | start
  | finish

/-- The item of a token that stands for one character or for an anchor. -/
def Token.item? : Token → Option Item
  | .plain c =>
    if c = '^' then some .start
    else if c = '$' then some .finish
    else if c ∈ metacharacters then none
    else some (.char c)
  | .escaped c => if Text.mayBeWord c then none else some (.char c)

/-- Whether nothing more comes than a last line feed. -/
def atEnd : List Char → Bool
  | [] => true
  | [c] => c == '\n'
  | _ => false

/-- Whether a text has the items from some place on; `atStart` says that this is its first place. -/
def matchesAt : List Item → Bool → List Char → Bool
  | [], _, _ => true
  | .start :: items, atStart, cs => atStart && matchesAt items atStart cs
  | .finish :: items, atStart, cs => atEnd cs && matchesAt items atStart cs
  | .char _ :: _, _, [] => false
  | .char c :: items, _, d :: cs => c == d && matchesAt items false cs

/-- Tries one place of a text after another. -/
def search (items : List Item) : Bool → List Char → Bool
  | atStart, [] => matchesAt items atStart []
  | atStart, c :: cs => matchesAt items atStart (c :: cs) || search items false cs

/-- Whether a pattern is found in a text. This is told of patterns without flags whose tokens are
characters and anchors. -/
def found? (p : Pattern) (s : String) : Option Bool := do
  if p ≠ plain p.source then none
  let items ← (← tokens? p.source.toList).mapM Token.item?
  return search items true s.toList

end Pattern

/-- Whether a text is selected by an expression that searches it for a pattern, or by the negation
of such an expression. -/
def Filter.selectsText? (s : String) : Value → Option Bool
  | .dict [(.text "$regex", .pattern p)] => p.found? s
  | .dict [(.text "$not", e)] => (selectsText? s e).map (!·)
  | _ => none

namespace Pattern

variable {c : Char} {cs ds : List Char} {items : List Item} {atStart : Bool} {v : Value}

/-! ## Searching -/

/-- A search succeeds if there is a place from which on the text has the items. -/
theorem search_iff : search items atStart cs = true ↔
    ∃ before after, cs = before ++ after ∧
      matchesAt items (atStart && before.isEmpty) after = true := by
  induction cs generalizing atStart with
  | nil => simp [search]
  | cons c cs ih =>
    rw [search, Bool.or_eq_true, ih]
    constructor
    · rintro (h | ⟨before, after, rfl, h⟩)
      · exact ⟨[], c :: cs, rfl, by simpa using h⟩
      · exact ⟨c :: before, after, rfl, by simpa using h⟩
    · rintro ⟨before, after, hcs, h⟩
      cases before with
      | nil =>
        left
        subst hcs
        simpa using h
      | cons d before =>
        right
        obtain ⟨rfl, rfl⟩ := List.cons.inj hcs
        exact ⟨before, after, rfl, by simpa using h⟩

/-- Characters are passed one by one; behind at least one of them the text does not start. -/
theorem matchesAt_chars (ds : List Char) : matchesAt (ds.map .char ++ items) atStart cs = true ↔
    ∃ after, cs = ds ++ after ∧ matchesAt items (atStart && ds.isEmpty) after = true := by
  induction ds generalizing atStart cs with
  | nil => simp
  | cons d ds ih =>
    cases cs with
    | nil => simp [matchesAt]
    | cons c cs =>
      rw [List.map_cons, List.cons_append, matchesAt, Bool.and_eq_true, beq_iff_eq, ih]
      simp only [Bool.false_and, List.isEmpty_cons, Bool.and_false, List.cons_append,
        List.cons.injEq]
      constructor
      · rintro ⟨rfl, after, hcs, h⟩
        exact ⟨after, ⟨rfl, hcs⟩, h⟩
      · rintro ⟨after, ⟨rfl, hcs⟩, h⟩
        exact ⟨rfl, after, hcs, h⟩

theorem atEnd_iff : atEnd cs = true ↔ cs = [] ∨ cs = ['\n'] := by
  unfold atEnd
  split <;> simp_all

/-- Behind the start of a text its first characters are looked at and no others. -/
theorem search_start_iff (ds cs : List Char) :
    search (.start :: ds.map .char) true cs = true ↔ ds <+: cs := by
  rw [search_iff]
  constructor
  · rintro ⟨before, after, rfl, h⟩
    rw [matchesAt, Bool.and_eq_true] at h
    obtain ⟨hbefore, h⟩ := h
    obtain rfl : before = [] := by simpa using hbefore
    rw [← List.append_nil (ds.map _), matchesAt_chars] at h
    obtain ⟨rest, rfl, -⟩ := h
    exact List.prefix_append ds rest
  · rintro ⟨rest, rfl⟩
    refine ⟨[], ds ++ rest, rfl, ?_⟩
    rw [matchesAt, ← List.append_nil (ds.map _), Bool.and_eq_true]
    exact ⟨rfl, (matchesAt_chars ds).2 ⟨rest, rfl, rfl⟩⟩

/-- In front of the end of a text there may be a line feed. -/
theorem search_finish_iff (ds cs : List Char) :
    search (ds.map .char ++ [.finish]) true cs = true ↔ ds <:+ cs ∨ ds ++ ['\n'] <:+ cs := by
  simp only [search_iff, matchesAt_chars, matchesAt, Bool.and_true, atEnd_iff]
  constructor
  · rintro ⟨before, _, rfl, after, rfl, rfl | rfl⟩
    · left
      rw [List.append_nil]
      exact List.suffix_append before ds
    · right
      exact List.suffix_append before (ds ++ ['\n'])
  · rintro (⟨before, rfl⟩ | ⟨before, rfl⟩)
    · exact ⟨before, ds, rfl, [], (List.append_nil ds).symm, .inl rfl⟩
    · exact ⟨before, ds ++ ['\n'], rfl, ['\n'], rfl, .inr rfl⟩

/-! ## Patterns made of values -/

theorem item?_tokenOf (c : Char) : (tokenOf c).item? = some (.char c) := by
  unfold tokenOf
  split
  · next h => simp [Token.item?, mayBeWord_of_isSpecial h]
  · next h =>
    have hplain : c ∉ metacharacters := (isSpecial_eq_false_iff.1 (Bool.eq_false_iff.2 h)).1
    have hcaret : c ≠ '^' := by
      rintro rfl
      exact hplain (by decide)
    have hdollar : c ≠ '$' := by
      rintro rfl
      exact hplain (by decide)
    simp [Token.item?, hplain, hcaret, hdollar]

theorem mapM_item?_tokenOf (cs : List Char) :
    (cs.map tokenOf).mapM Token.item? = some (cs.map .char) := by
  induction cs with
  | nil => rfl
  | cons c cs ih => simp [item?_tokenOf, ih]

theorem found?_of_tokens {source : String} {tokens : List Token}
    (htokens : tokens? source.toList = some tokens)
    (hitems : tokens.mapM Token.item? = some items) (s : String) :
    (plain source).found? s = some (search items true s.toList) := by
  have hsource : (plain source).source = source := rfl
  simp [found?, hsource, htokens, hitems]

theorem found?_start (v : Value) (s : String) :
    (plain ("^" ++ escape v)).found? s = some (decide (v.display.toList <+: s.toList)) := by
  have hitems : (Token.plain '^' :: v.display.toList.map tokenOf).mapM Token.item? =
      some (.start :: v.display.toList.map .char) := by
    rw [List.mapM_cons, mapM_item?_tokenOf]
    rfl
  rw [found?_of_tokens (tokens?_start v) hitems, Option.some_inj, Bool.eq_iff_iff,
    decide_eq_true_eq]
  exact search_start_iff _ _

theorem found?_finish (v : Value) (s : String) :
    (plain (escape v ++ "$")).found? s = some (decide
      (v.display.toList <:+ s.toList ∨ v.display.toList ++ ['\n'] <:+ s.toList)) := by
  have hitems : (v.display.toList.map tokenOf ++ [Token.plain '$']).mapM Token.item? =
      some (v.display.toList.map .char ++ [.finish]) := by
    rw [List.mapM_append, mapM_item?_tokenOf]
    rfl
  rw [found?_of_tokens (tokens?_finish v) hitems, Option.some_inj, Bool.eq_iff_iff,
    decide_eq_true_eq]
  exact search_finish_iff _ _

/-! ## Values of line feeds -/

/-- Characters that come one place later again are all the same. -/
theorem eq_of_cons_eq_append {x : Char} (h : x :: ds = ds ++ [c]) : ∀ d ∈ ds, d = c := by
  induction ds generalizing x with
  | nil => simp
  | cons y ds ih =>
    obtain ⟨-, htail⟩ := List.cons.inj h
    have hrest : ∀ d ∈ ds, d = c := ih htail
    rw [List.forall_mem_cons]
    refine ⟨?_, hrest⟩
    have hmem : y ∈ ds ++ [c] := by
      rw [← List.append_eq, ← htail]
      exact List.mem_cons_self
    rcases List.mem_append.1 hmem with hmem | hmem
    · exact hrest y hmem
    · exact List.mem_singleton.1 hmem

theorem suffix_append_self_iff : ds <:+ ds ++ [c] ↔ ∀ d ∈ ds, d = c := by
  constructor
  · rintro ⟨before, h⟩
    have hlength : before.length = 1 := by
      have hsum := congrArg List.length h
      simp only [List.length_append, List.length_singleton] at hsum
      omega
    obtain ⟨x, rfl⟩ := List.length_eq_one_iff.1 hlength
    exact eq_of_cons_eq_append h
  · intro h
    rw [List.eq_replicate_of_mem h, ← List.replicate_succ', List.replicate_succ]
    exact List.suffix_cons _ _

end Pattern

/-! ## Filters for the two ends of a text -/

namespace Filter

open Pattern

theorem selectsText?_negated (s : String) (e : Value) :
    selectsText? s (negated e) = (selectsText? s e).map (!·) := by
  simp [negated, Value.single, selectsText?]

/-- A filter for the start selects the texts that begin with a value, and one for the end those that
end with it or with it and a line feed; the negations select the others. A filter for the end is
exact for a value that consists of line feeds, and for no other. -/
theorem selects_ends_iff {v : Value} (hv : ∀ p, v ≠ .pattern p) :
    ∃ first last, expression .startsWith v = .ok first ∧
      expression .notStartsWith v = .ok (negated first) ∧
      expression .endsWith v = .ok last ∧ expression .notEndsWith v = .ok (negated last) ∧
      (∀ s, selectsText? s first = some (decide (v.display.toList <+: s.toList)) ∧
        selectsText? s (negated first) = some (decide ¬ v.display.toList <+: s.toList) ∧
        selectsText? s last = some (decide
          (v.display.toList <:+ s.toList ∨ v.display.toList ++ ['\n'] <:+ s.toList)) ∧
        selectsText? s (negated last) = some (decide
          ¬ (v.display.toList <:+ s.toList ∨ v.display.toList ++ ['\n'] <:+ s.toList))) ∧
      ((∀ s, selectsText? s last = some (decide (v.display.toList <:+ s.toList))) ↔
        ∀ c ∈ v.display.toList, c = '\n') := by
  have hstart : literalFor .start false v = plain ("^" ++ escape v) := by
    unfold literalFor
    split
    · exact absurd rfl (hv _)
    · rfl
  have hfinish : literalFor .finish false v = plain (escape v ++ "$") := by
    unfold literalFor
    split
    · exact absurd rfl (hv _)
    · rfl
  have hfirst : ∀ s, selectsText? s (matching .start false v) =
      some (decide (v.display.toList <+: s.toList)) := by
    intro s
    rw [matching, hstart]
    exact found?_start v s
  have hlast : ∀ s, selectsText? s (matching .finish false v) = some (decide
      (v.display.toList <:+ s.toList ∨ v.display.toList ++ ['\n'] <:+ s.toList)) := by
    intro s
    rw [matching, hfinish]
    exact found?_finish v s
  refine ⟨matching .start false v, matching .finish false v, rfl, rfl, rfl, rfl, ?_, ?_⟩
  · intro s
    rw [selectsText?_negated, selectsText?_negated, hfirst, hlast]
    simp only [Option.map_some, decide_not, and_self]
  · rw [← suffix_append_self_iff]
    simp only [hlast, Option.some_inj, decide_eq_decide, or_iff_left_iff_imp]
    constructor
    · intro h
      have htext := h (String.ofList (v.display.toList ++ ['\n']))
      rw [String.toList_ofList] at htext
      exact htext List.suffix_rfl
    · intro h s hfeed
      exact h.trans hfeed

/-- A sum is searched for literally, at the end of a text and of its last line. -/
theorem selects_ends_iff_sum :
    (∀ p, Value.text "1+1" ≠ .pattern p) ∧
    ∃ last, expression .endsWith (.text "1+1") = .ok last ∧
      selectsText? "2=1+1" last = some true ∧ selectsText? "2=1+1\n" last = some true ∧
      selectsText? "2=111" last = some false ∧
      selectsText? "2=1+1\n" (negated last) = some false := by
  have hplain : ∀ p, Value.text "1+1" ≠ .pattern p := by simp
  obtain ⟨_, last, -, -, hlast, -, hselects, -⟩ := selects_ends_iff hplain
  have htext : (Value.text "1+1").display = "1+1" := by simp [Value.display]
  rw [htext] at hselects
  refine ⟨hplain, last, hlast, ?_, ?_, ?_, ?_⟩
  · exact (hselects "2=1+1").2.2.1.trans (by decide)
  · exact (hselects "2=1+1\n").2.2.1.trans (by decide)
  · exact (hselects "2=111").2.2.1.trans (by decide)
  · exact (hselects "2=1+1\n").2.2.2.trans (by decide)

/-- A filter for texts that end with "foo" also selects one that ends with a line feed. -/
theorem not_exact_foo :
    ¬ ∀ (v e : Value) (s : String), (∀ p, v ≠ .pattern p) → expression .endsWith v = .ok e →
      (selectsText? s e = some true ↔ v.display.toList <:+ s.toList) := by
  intro h
  have htext : (Value.text "foo").display = "foo" := by simp [Value.display]
  have hiff := h (.text "foo") (matching .finish false (.text "foo")) "foo\n" (by simp) rfl
  have hfound : selectsText? "foo\n" (matching .finish false (.text "foo")) = some (decide
      ((Value.text "foo").display.toList <:+ "foo\n".toList ∨
        (Value.text "foo").display.toList ++ ['\n'] <:+ "foo\n".toList)) :=
    found?_finish (.text "foo") "foo\n"
  rw [hfound, htext] at hiff
  exact absurd hiff (by decide)

end Filter

end DocumentMapper
