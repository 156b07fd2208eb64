import DocumentMapper.Filter.Clause
import DocumentMapper.Proofs.Outcome
import Mathlib.Data.List.Basic

/-!
# Operators and their negations

Some operators come with another one that selects what they do not. Whatever the operand, the two
are compiled or refused together, and what the second one compiles to is either the negation of
what the first one compiles to, or the same comparison with the opposite operator of the query
language.

There is one exception. After `in` a text names a column, and after `notIn` as well, but after `nin`
it is taken as it is. The two sides then speak of different things, unless the text has the form of
a reference already.
-/

namespace DocumentMapper

open Outcome

/-- A list or a tuple of two values. -/
def Value.IsPair : Value → Prop
  | list items | tuple items => items.length = 2
  | _ => False

namespace Column

/-- A text with one dollar sign in front. -/
def IsReference (s : String) : Prop :=
  ∃ rest, s.toList = '$' :: rest ∧ rest.head? ≠ some '$'

/-- A column is referred to by its own name exactly if the name is a reference already. -/
theorem referenceTo_eq_self_iff (s : String) : referenceTo s = s ↔ IsReference s := by
  have hchars : (referenceTo s).toList = '$' :: s.toList.dropWhile (· == '$') := by
    simp [referenceTo]
  rw [← String.toList_inj, hchars, IsReference]
  constructor
  · intro h
    refine ⟨_, h.symm, fun hhead => ?_⟩
    obtain ⟨rest, hrest⟩ := List.head?_eq_some_iff.1 hhead
    have hdropped := List.head?_dropWhile_not (· == '$') s.toList
    rw [hrest] at hdropped
    simp at hdropped
  · rintro ⟨rest, h, hhead⟩
    rw [h, List.dropWhile_cons_of_pos (by simp)]
    cases rest with
    | nil => rfl
    | cons c rest =>
      have hc : c ≠ '$' := by simpa using hhead
      rw [List.dropWhile_cons_of_neg (by simpa using hc)]

end Column

namespace Filter

variable {v w : Value} {op p n : Operator}

/-! ## What operators compile to -/

theorem plainExpression_eq (hop : op ∉ [Operator.between, .notBetween]) (v : Value) :
    plainExpression op v = .single op.native <$> v.normalizeDates := by
  unfold plainExpression
  cases v.normalizeDates with
  | error e => rfl
  | ok w => cases op <;> first | rfl | exact absurd (by decide) hop

/-- Two values make a range, for whichever operator, and nothing else does. -/
theorem range_cases (op : Operator) (v : Value) :
    (v.IsPair ∧ ∃ low high, ∀ op, range op v = .ok (.ofEntries [("$gte", low), ("$lte", high)])) ∨
    (¬ v.IsPair ∧ range op v = .error (.rangeExpected op.token v)) := by
  unfold range
  split
  · exact .inl ⟨rfl, _, _, fun op => rfl⟩
  · exact .inl ⟨rfl, _, _, fun op => rfl⟩
  · next hlist htuple =>
    refine .inr ⟨fun hpair => ?_, rfl⟩
    unfold Value.IsPair at hpair
    split at hpair
    · obtain ⟨low, high, rfl⟩ := List.length_eq_two.1 hpair
      exact hlist low high rfl
    · obtain ⟨low, high, rfl⟩ := List.length_eq_two.1 hpair
      exact htuple low high rfl
    · exact hpair

/-! ## Operators that select what others do not -/

/-- The second operator selects what the first one does not. -/
inductive Opposite : Operator → Operator → Prop
  | equal : Opposite .eq .ne
  | isIn : Opposite .isIn .notIn
  | isInNative : Opposite .isIn .nin
  | between : Opposite .between .notBetween
  | like : Opposite .like .notLike
  | startsWith : Opposite .startsWith .notStartsWith
  | endsWith : Opposite .endsWith .notEndsWith

/-- The operator of the query language for the opposite comparison. -/
def complement? : String → Option String
  | "$eq" => some "$ne"
  | "$in" => some "$nin"
  | _ => none

/-- The second expression negates the first one as a whole, or compares the other way with the same
operand. -/
inductive Negates : Value → Value → Prop
  | wrapped {e : Value} : Negates e (negated e)
  | complemented {name other : String} {operand : Value} : complement? name = some other →
      Negates (.single name operand) (.single other operand)

theorem negates_membership_iff : Negates (.single "$in" v) (.single "$nin" w) ↔ v = w := by
  constructor
  · intro h
    generalize he : Value.single "$in" v = e at h
    generalize hf : Value.single "$nin" w = f at h
    cases h with
    | wrapped => simp [negated, Value.single] at hf
    | complemented => simp_all [Value.single]
  · rintro rfl
    exact .complemented rfl

/-- A comparison and the opposite one are compiled from the same operand. -/
theorem plain_opposite {C : Prop} (hp : p ∉ [Operator.between, .notBetween])
    (hn : n ∉ [Operator.between, .notBetween]) (h : complement? p.native = some n.native)
    (hC : C) (v : Value) :
    (∃ e e', plainExpression p v = .error e ∧ plainExpression n v = .error e') ∨
    ∃ e f, plainExpression p v = .ok e ∧ plainExpression n v = .ok f ∧ (Negates e f ↔ C) := by
  rw [plainExpression_eq hp, plainExpression_eq hn]
  cases v.normalizeDates with
  | error e => exact .inl ⟨e, e, rfl, rfl⟩
  | ok w => exact .inr ⟨_, _, rfl, rfl, iff_of_true (.complemented h) hC⟩

/-- Of the operands of `in` and `nin` only texts are not taken alike. -/
theorem isText_cases (v : Value) :
    (∃ s, v = .text s) ∨
    (expression .isIn v = plainExpression .isIn v ∧
      expression .notIn v = plainExpression .notIn v ∧ ∀ s, v ≠ .text s) := by
  cases v with
  | text s => exact .inl ⟨s, rfl⟩
  | _ => exact .inr ⟨rfl, rfl, nofun⟩

/-- The two sides fail together, or each is compiled. -/
theorem opposite_cases (h : Opposite p n) (v : Value) :
    (∃ e e', expression p v = .error e ∧ expression n v = .error e') ∨
    ∃ e f, expression p v = .ok e ∧ expression n v = .ok f ∧
      (Negates e f ↔ (n = .nin → ∀ s, v = .text s → Column.IsReference s)) := by
  cases h with
  | equal => exact plain_opposite (p := .eq) (n := .ne) (by decide) (by decide) rfl nofun v
  | isIn =>
    rcases isText_cases v with ⟨s, rfl⟩ | ⟨hin, hnotIn, -⟩
    · exact .inr ⟨_, _, rfl, rfl, iff_of_true .wrapped nofun⟩
    · rw [hin, hnotIn]
      exact plain_opposite (p := .isIn) (n := .notIn) (by decide) (by decide) rfl nofun v
  | isInNative =>
    rcases isText_cases v with ⟨s, rfl⟩ | ⟨hin, -, hnone⟩
    · -- here the first side refers to a column and the second one does not
      refine .inr ⟨.single "$in" (.text (Column.referenceTo s)), .single "$nin" (.text s), rfl, rfl,
        negates_membership_iff.trans ?_⟩
      simp [Column.referenceTo_eq_self_iff]
    · rw [hin]
      have hC : Operator.nin = .nin → ∀ s, v = .text s → Column.IsReference s :=
        fun _ s hs => absurd hs (hnone s)
      exact plain_opposite (p := .isIn) (n := .nin) (by decide) (by decide) rfl hC v
  | between =>
    simp only [expression, plainExpression]
    cases v.normalizeDates with
    | error e => exact .inl ⟨e, e, rfl, rfl⟩
    | ok w =>
      rcases range_cases .between w with ⟨-, low, high, hok⟩ | ⟨hpair, herror⟩
      · refine .inr ⟨_, _, hok .between, ?_, iff_of_true .wrapped nofun⟩
        exact bind_eq_ok.2 ⟨w, rfl, bind_eq_ok.2 ⟨_, hok .notBetween, rfl⟩⟩
      · rcases range_cases .notBetween w with ⟨hpair', -⟩ | ⟨-, herror'⟩
        · exact absurd hpair' hpair
        · refine .inl ⟨_, .rangeExpected Operator.notBetween.token w, herror, ?_⟩
          exact bind_eq_error.2 (.inr ⟨w, rfl, bind_eq_error.2 (.inl herror')⟩)
  | like => exact .inr ⟨_, _, rfl, rfl, iff_of_true .wrapped nofun⟩
  | startsWith => exact .inr ⟨_, _, rfl, rfl, iff_of_true .wrapped nofun⟩
  | endsWith => exact .inr ⟨_, _, rfl, rfl, iff_of_true .wrapped nofun⟩

/-- Two opposite operators refuse the same operands. What they compile an operand to is the opposite
of each other too, but for `in` and `nin` with a text that is not a reference. -/
theorem opposite_negates_iff (h : Opposite p n) (v : Value) :
    ((∃ e, expression n v = .error e) ↔ ∃ e, expression p v = .error e) ∧
    ((∀ e f, expression p v = .ok e → expression n v = .ok f → Negates e f) ↔
      (n = .nin → ∀ s, v = .text s → Column.IsReference s)) := by
  rcases opposite_cases h v with ⟨e, e', he, he'⟩ | ⟨e, f, he, hf, hiff⟩
  · refine ⟨iff_of_true ⟨e', he'⟩ ⟨e, he⟩, iff_of_true ?_ ?_⟩
    · intro a b ha
      cases he.symm.trans ha
    · rintro rfl s rfl
      cases he'
  · refine ⟨iff_of_false ?_ ?_, Iff.trans ?_ hiff⟩
    · rintro ⟨a, ha⟩
      cases hf.symm.trans ha
    · rintro ⟨a, ha⟩
      cases he.symm.trans ha
    · constructor
      · intro hall
        exact hall e f he hf
      · intro hnegates a b ha hb
        cases he.symm.trans ha
        cases hf.symm.trans hb
        exact hnegates

/-- Being one of several tags, and not being one of them. -/
theorem opposite_negates_iff_tags :
    Opposite .isIn .nin ∧
    (∀ e f, expression .isIn (.list [.text "a", .text "b"]) = .ok e →
      expression .nin (.list [.text "a", .text "b"]) = .ok f → Negates e f) ∧
    ∀ e f, expression .isIn (.text "$tags") = .ok e → expression .nin (.text "$tags") = .ok f →
      Negates e f := by
  have hreference : Column.IsReference "$tags" := ⟨"tags".toList, rfl, by decide⟩
  obtain ⟨-, hlist⟩ := opposite_negates_iff .isInNative (.list [.text "a", .text "b"])
  obtain ⟨-, htext⟩ := opposite_negates_iff .isInNative (.text "$tags")
  refine ⟨.isInNative, hlist.2 nofun, htext.2 fun _ s hs => ?_⟩
  cases hs
  exact hreference

/-- The tags in a column are looked up for `in`, and the name of the column is sent for `nin`. -/
theorem not_negates_blocked :
    ¬ ∀ (p n : Operator) (v e f : Value), Opposite p n → expression p v = .ok e →
      expression n v = .ok f → Negates e f := by
  intro h
  have hnegates : Negates (.single "$in" (.text (Column.referenceTo "blocked")))
      (.single "$nin" (.text "blocked")) := h .isIn .nin (.text "blocked") _ _ .isInNative rfl rfl
  have hsame : Column.referenceTo "blocked" = "blocked" := by
    simpa using negates_membership_iff.1 hnegates
  obtain ⟨rest, hrest, -⟩ := (Column.referenceTo_eq_self_iff _).1 hsame
  cases hrest

end Filter

end DocumentMapper
