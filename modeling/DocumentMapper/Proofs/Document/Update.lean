import DocumentMapper.Proofs.Value.Equality
import Mathlib.Data.List.Basic

/-!
# Dictionaries written over one another

Writing an entry either finds its key and changes the value there, or puts the entry at the end, so
that no key comes up twice. Entries that are written in turn are all there in the end, and nothing
else is, if any two of them under the same key are one and the same entry.
-/

namespace DocumentMapper.Document

variable {d es all : Document} {key v : Value}

/-- The two outcomes of writing an entry. -/
theorem put_cases (key v : Value) (d : Document) :
    ((∀ e ∈ d, e.1.same key = false) ∧ put key v d = d ++ [(key, v)]) ∨
      ∃ first k old last, d = first ++ (k, old) :: last ∧ k.same key = true ∧
        put key v d = first ++ (k, v) :: last := by
  induction d with
  | nil => exact .inl ⟨List.forall_mem_nil _, rfl⟩
  | cons e d ih =>
    obtain ⟨k, old⟩ := e
    unfold put
    split
    · next hsame => exact .inr ⟨[], k, old, d, rfl, hsame, rfl⟩
    · next hother =>
      rcases ih with ⟨hnone, hput⟩ | ⟨first, k', old', last, rfl, hsame, hput⟩
      · refine .inl ⟨?_, by rw [hput]; rfl⟩
        exact List.forall_mem_cons.2 ⟨Bool.eq_false_iff.2 hother, hnone⟩
      · exact .inr ⟨(k, old) :: first, k', old', last, rfl, hsame, by rw [hput]; rfl⟩

/-- An entry under a key that is not there goes to the end. -/
theorem put_of_not_has (h : d.has key = false) (v : Value) : put key v d = d ++ [(key, v)] := by
  rcases put_cases key v d with ⟨-, hput⟩ | ⟨first, k, old, last, rfl, hsame, -⟩
  · exact hput
  · simp [has, hsame] at h

/-- An entry under a key that is there keeps the keys as they are. -/
theorem map_fst_put_of_has (h : d.has key = true) (v : Value) :
    (put key v d).map (·.1) = d.map (·.1) := by
  rcases put_cases key v d with ⟨hnone, -⟩ | ⟨first, k, old, last, rfl, -, hput⟩
  · obtain ⟨e, he, hsame⟩ := List.any_eq_true.1 h
    exact absurd hsame (Bool.eq_false_iff.1 (hnone e he))
  · rw [hput, List.map_append, List.map_append]
    rfl

/-- Dictionaries of the same keys have the same keys. -/
theorem has_of_map_fst {d' : Document} (h : d'.map (·.1) = d.map (·.1)) (key : Value) :
    d'.has key = d.has key := by
  have hkeys : ∀ d : Document, d.has key = (d.map (·.1)).any (·.same key) := fun d => by
    rw [List.any_map]
    rfl
  rw [hkeys, hkeys, h]

theorem not_has_eraseField (h : d.has key = false) (name : String) :
    (d.eraseField name).has key = false := by
  unfold has at *
  rw [List.any_eq_false] at *
  exact fun e he => h e (List.mem_of_mem_filter he)

theorem update_append (d es es' : Document) : d.update (es ++ es') = (d.update es).update es' :=
  List.foldl_append

/-- No two entries have the same key. -/
def Distinct (d : Document) : Prop :=
  (d.map Prod.fst).Pairwise fun a b => a.same b = false

theorem Distinct.put (h : Distinct d) : Distinct (put key v d) := by
  rcases put_cases key v d with ⟨hnone, hput⟩ | ⟨first, k, old, last, rfl, -, hput⟩
  · unfold Distinct at *
    rw [hput, List.map_append, List.pairwise_append]
    refine ⟨h, List.pairwise_singleton _ _, ?_⟩
    intro a ha b hb
    obtain ⟨e, he, rfl⟩ := List.mem_map.1 ha
    rw [List.mem_singleton.1 hb]
    exact hnone e he
  · unfold Distinct at *
    rw [hput]
    simpa using h

theorem Distinct.update (h : Distinct d) (es : Document) : Distinct (d.update es) := by
  induction es generalizing d with
  | nil => exact h
  | cons e es ih => exact ih h.put

theorem distinct_ofEntries (es : Document) : Distinct (ofEntries es) :=
  Distinct.update (d := []) List.Pairwise.nil es

theorem Distinct.eq_of_same (h : Distinct d) {a b : Value × Value} (ha : a ∈ d) (hb : b ∈ d)
    (hkey : a.1.unhashable? = none) (hsame : a.1.same b.1 = true) : a = b := by
  unfold Distinct at h
  rw [List.pairwise_map, List.pairwise_iff_getElem] at h
  obtain ⟨i, hi, rfl⟩ := List.getElem_of_mem ha
  obtain ⟨j, hj, rfl⟩ := List.getElem_of_mem hb
  rcases Nat.lt_trichotomy i j with hlt | rfl | hlt
  · rw [h i j hi hj hlt] at hsame
    cases hsame
  · rfl
  · rw [Value.same_comm _ _ hkey, h j i hj hi hlt] at hsame
    cases hsame

/-- Entries that say the same wherever they have the same key. -/
def Agree (es : Document) : Prop :=
  ∀ a ∈ es, ∀ b ∈ es, a.1.same b.1 = true → a = b

theorem mem_put_of_agree (h : Agree all) (hd : d ⊆ all) (hnew : (key, v) ∈ all)
    (e : Value × Value) : e ∈ put key v d ↔ e ∈ d ∨ e = (key, v) := by
  rcases put_cases key v d with ⟨-, hput⟩ | ⟨first, k, old, last, rfl, hsame, hput⟩
  · rw [hput, List.mem_append, List.mem_singleton]
  · have hold : (k, old) = (key, v) :=
      h _ (hd (List.mem_append_right _ List.mem_cons_self)) _ hnew hsame
    cases hold
    rw [hput]
    rw [iff_self_or]
    rintro rfl
    exact List.mem_append_right _ List.mem_cons_self

theorem mem_update_of_agree (h : Agree all) (hd : d ⊆ all) (hes : es ⊆ all)
    (e : Value × Value) : e ∈ d.update es ↔ e ∈ d ∨ e ∈ es := by
  induction es generalizing d with
  | nil => simp [update]
  | cons new es ih =>
    obtain ⟨hnew, hes⟩ := List.cons_subset.1 hes
    have hput := mem_put_of_agree h hd hnew
    have hsubset : put new.1 new.2 d ⊆ all := by
      intro e he
      rcases (hput e).1 he with he | rfl
      · exact hd he
      · exact hnew
    have hrest := ih hsubset hes
    show e ∈ update (put new.1 new.2 d) es ↔ _
    rw [hrest, hput, List.mem_cons, or_assoc]

theorem mem_ofEntries_of_agree (h : Agree es) (e : Value × Value) :
    e ∈ ofEntries es ↔ e ∈ es := by
  simpa [ofEntries] using mem_update_of_agree h (List.nil_subset es) (List.Subset.refl es) e

end DocumentMapper.Document
