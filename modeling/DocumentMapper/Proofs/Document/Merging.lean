import DocumentMapper.Model.Lifecycle
import DocumentMapper.Proofs.Document.Frame
import DocumentMapper.Proofs.Value.Equivalence

/-!
# Laws of the deep merge

A merge is told by its keys and by what stands under each of them: the keys of the document that is
merged into come first, new ones follow, and under a key of the other document stands the merge of
both values. All else follows from this by induction on the documents: what is no dictionary wins
over whatever is there, what the other document leaves open reads as before, and merging either of
the two again changes nothing. The entries that a model gives to its new records are merged in this
way under the data of a record.
-/

namespace DocumentMapper

namespace Document

variable {base upper d d' : Document} {k key v w : Value} {keys : List Value}

/-! ## Documents that can come up -/

/-- Keys that can be keys and of which no two are the same. A key that holds a record is not the
same as its own copy, so that a merge does not find it again. -/
structure Keyed (d : Document) : Prop where
  distinct : d.Distinct
  hashable : ∀ e ∈ d, e.1.unhashable? = none
  found : ∀ e ∈ d, e.1.same e.1 = true

/-- Texts that come up once are such keys. -/
theorem keyed_of_texts (names : List String) (hkeys : d.map (·.1) = names.map .text)
    (hnames : names.Nodup) : Keyed d := by
  have htext : ∀ e ∈ d, ∃ name, e.1 = .text name := by
    intro e he
    have hmem : e.1 ∈ names.map Value.text := hkeys ▸ List.mem_map_of_mem he
    obtain ⟨name, -, heq⟩ := List.mem_map.1 hmem
    exact ⟨name, heq.symm⟩
  refine ⟨?_, ?_, ?_⟩
  · unfold Distinct
    rw [show d.map Prod.fst = names.map Value.text from hkeys, List.pairwise_map]
    exact hnames.imp fun hne => Value.same_text_eq_false (by simpa using hne)
  · intro e he
    obtain ⟨name, heq⟩ := htext e he
    rw [heq]
    rfl
  · intro e he
    obtain ⟨name, heq⟩ := htext e he
    rw [heq, Value.same_text]

theorem Keyed.tail {e : Value × Value} (h : Keyed (e :: d)) : Keyed d where
  distinct := (List.pairwise_cons.1 h.distinct).2
  hashable f hf := h.hashable f (List.mem_cons_of_mem _ hf)
  found f hf := h.found f (List.mem_cons_of_mem _ hf)

theorem fst_of_mem_put {e : Value × Value} (h : e ∈ put key v d) :
    e.1 = key ∨ ∃ f ∈ d, f.1 = e.1 := by
  have hmem : e.1 ∈ (put key v d).map (·.1) := List.mem_map_of_mem h
  rcases map_fst_put key v d with hkeys | hkeys
  · rw [hkeys] at hmem
    exact .inr (List.mem_map.1 hmem)
  · rw [hkeys, List.mem_append, List.mem_singleton] at hmem
    rcases hmem with hmem | heq
    · exact .inr (List.mem_map.1 hmem)
    · exact .inl heq

theorem Keyed.put (h : Keyed d) (hashable : key.unhashable? = none)
    (found : key.same key = true) : Keyed (put key v d) where
  distinct := h.distinct.put
  hashable e he := by
    rcases fst_of_mem_put he with heq | ⟨f, hf, heq⟩
    · rw [heq]
      exact hashable
    · rw [← heq]
      exact h.hashable f hf
  found e he := by
    rcases fst_of_mem_put he with heq | ⟨f, hf, heq⟩
    · rw [heq]
      exact found
    · rw [← heq]
      exact h.found f hf

theorem Keyed.merge (hbase : Keyed base) (hupper : Keyed upper) : Keyed (base.merge upper) := by
  induction upper generalizing base with
  | nil =>
    rw [Document.merge]
    exact hbase
  | cons e rest ih =>
    rw [Document.merge]
    have hk := hupper.hashable e List.mem_cons_self
    have hself := hupper.found e List.mem_cons_self
    exact ih (hbase.put hk hself) hupper.tail

/-! ## Reading under a key -/

theorem get?_cons (k v : Value) (rest : Document) (key : Value) :
    get? ((k, v) :: rest) key = if k.same key = true then some v else get? rest key := by
  by_cases h : k.same key = true <;> simp [get?, h]

/-- Keys that are the same lead to the same value. -/
theorem get?_congr (hk : k.unhashable? = none) (h : k.same key = true) (d : Document) :
    get? d k = get? d key := by
  induction d with
  | nil => rfl
  | cons e rest ih =>
    obtain ⟨k', old⟩ := e
    have hback : key.same k = true := by rwa [← Value.same_comm k key hk]
    have hiff : k'.same k = true ↔ k'.same key = true := by
      constructor
      · intro h'
        exact Value.same_trans k' k key h' h
      · intro h'
        exact Value.same_trans k' key k h' hback
    rw [get?_cons, get?_cons, ih]
    simp only [hiff]

theorem get?_put (hk : k.unhashable? = none) (v : Value) (d : Document) (key : Value) :
    get? (put k v d) key = if k.same key = true then some v else get? d key := by
  induction d with
  | nil => exact get?_cons k v [] key
  | cons e rest ih =>
    obtain ⟨k', old⟩ := e
    by_cases hsame : k'.same k = true
    · have hback : k.same k' = true := by rwa [Value.same_comm k k' hk]
      have hiff : k'.same key = true ↔ k.same key = true := by
        constructor
        · intro h
          exact Value.same_trans k k' key hback h
        · intro h
          exact Value.same_trans k' k key hsame h
      rw [put, if_pos hsame, get?_cons, get?_cons]
      simp only [hiff]
      split <;> rfl
    · rw [put, if_neg hsame, get?_cons, get?_cons, ih]
      by_cases hkey : k'.same key = true
      · have hother : ¬ k.same key = true := by
          intro h
          have hback : key.same k = true := by rwa [← Value.same_comm k key hk]
          exact hsame (Value.same_trans k' key k hkey hback)
        rw [if_pos hkey, if_neg hother]
        simp [hkey]
      · simp [hkey]

theorem get?_eq_none_of_forall (h : ∀ e ∈ d, e.1.same key = false) : get? d key = none := by
  induction d with
  | nil => rfl
  | cons e rest ih =>
    rw [List.forall_mem_cons] at h
    rw [get?_cons, h.1, ih h.2]
    rfl

theorem Keyed.get?_of_mem (h : Keyed d) {e : Value × Value} (he : e ∈ d) :
    get? d e.1 = some e.2 := by
  induction d with
  | nil => cases he
  | cons f rest ih =>
    rw [get?_cons]
    rcases List.mem_cons.1 he with rfl | he
    · exact if_pos (h.found e List.mem_cons_self)
    · have hother := (List.pairwise_cons.1 h.distinct).1 e.1 (List.mem_map_of_mem he)
      rw [hother, ih h.tail he]
      rfl

theorem exists_mem_of_get? (h : get? d key = some v) :
    ∃ k, (k, v) ∈ d ∧ k.same key = true := by
  obtain ⟨e, he, rfl⟩ := Option.map_eq_some_iff.1 h
  exact ⟨e.1, List.mem_of_find?_eq_some he, by simpa using List.find?_some he⟩

/-- Writing what is read under a key changes nothing. -/
theorem put_of_get? (h : get? d key = some v) : put key v d = d := by
  induction d with
  | nil => cases h
  | cons e rest ih =>
    obtain ⟨k, old⟩ := e
    rw [get?_cons] at h
    unfold put
    split_ifs at h ⊢
    · rw [Option.some.inj h]
    · rw [ih h]

/-- Documents with the same keys are equal when they read the same under each of them. -/
theorem Keyed.eq_of_get? (h : Keyed d) (hkeys : d'.map (·.1) = d.map (·.1))
    (hget : ∀ e ∈ d, get? d' e.1 = some e.2) : d' = d := by
  induction d generalizing d' with
  | nil => exact List.map_eq_nil_iff.1 hkeys
  | cons e rest ih =>
    obtain ⟨⟨k, v⟩, rest', rfl, hk, hrest⟩ := List.map_eq_cons_iff.1 hkeys
    obtain ⟨hfirst, hget⟩ := List.forall_mem_cons.1 hget
    obtain rfl : k = e.1 := hk
    rw [get?_cons, if_pos (h.found e List.mem_cons_self)] at hfirst
    have htail : rest' = rest := by
      refine ih h.tail hrest ?_
      intro f hf
      have hother := (List.pairwise_cons.1 h.distinct).1 f.1 (List.mem_map_of_mem hf)
      rw [← hget f hf, get?_cons, hother]
      rfl
    rw [htail, Option.some.inj hfirst]

/-! ## Keys and values of a merge -/

/-- Under a key of the document that is merged stands the merge of both values, under any other
key what was there. -/
theorem get?_merge (h : Keyed upper) (base : Document) (key : Value) :
    get? (base.merge upper) key =
      match get? upper key with
      | some v => some (mergeValue (get? base key) v)
      | none => get? base key := by
  induction upper generalizing base with
  | nil => rw [merge]; rfl
  | cons e rest ih =>
    obtain ⟨k, v⟩ := e
    have hk := h.hashable (k, v) List.mem_cons_self
    rw [merge, ih h.tail, get?_cons, get?_put hk]
    by_cases hsame : k.same key = true
    · have hnone : get? rest key = none := by
        refine get?_eq_none_of_forall ?_
        intro f hf
        refine Bool.eq_false_iff.2 ?_
        intro hf'
        have hother := (List.pairwise_cons.1 h.distinct).1 f.1 (List.mem_map_of_mem hf)
        have hback : key.same f.1 = true := by
          rwa [Value.same_comm f.1 key (h.tail.hashable f hf)] at hf'
        have hboth := Value.same_trans k key f.1 hsame hback
        rw [hboth] at hother
        cases hother
      rw [hnone, if_pos hsame, if_pos hsame, get?_congr hk hsame]
    · rw [if_neg hsame, if_neg hsame]

/-- New keys follow those that are there. -/
theorem map_fst_merge (h : Keyed upper) (base : Document) :
    (base.merge upper).map (·.1) =
      base.map (·.1) ++ (upper.map (·.1)).filter fun key => !base.has key := by
  induction upper generalizing base with
  | nil => rw [merge]; simp
  | cons e rest ih =>
    obtain ⟨k, v⟩ := e
    rw [merge, ih h.tail, List.map_cons, List.filter_cons]
    cases hhas : base.has k with
    | true =>
      have hkeys := map_fst_put_of_has hhas (mergeValue (get? base k) v)
      simp [hkeys, has_of_map_fst hkeys]
    | false =>
      have hothers : ∀ key ∈ rest.map (·.1), has (base ++ [(k, mergeValue (get? base k) v)]) key =
          base.has key := by
        intro key hkey
        have hother : k.same key = false := (List.pairwise_cons.1 h.distinct).1 key hkey
        simp [has, hother]
      rw [put_of_not_has hhas, List.filter_congr fun key hkey => by rw [hothers key hkey]]
      simp

theorem get?_merge_of_get? (h : Keyed upper) (hget : get? upper key = some v) (base : Document) :
    get? (base.merge upper) key = some (mergeValue (get? base key) v) := by
  rw [get?_merge h, hget]

theorem get?_merge_of_none (h : Keyed upper) (hget : get? upper key = none) (base : Document) :
    get? (base.merge upper) key = get? base key := by
  rw [get?_merge h, hget]

theorem Keyed.nil_merge (h : Keyed d) : Document.merge [] d = d := by
  refine h.eq_of_get? ?_ ?_
  · rw [map_fst_merge h]
    simp [has]
  · intro e he
    rw [get?_merge_of_get? h (h.get?_of_mem he)]
    exact congrArg some (mergeValue_none e.2)

theorem Keyed.has_of_mem (h : Keyed d) (hk : k ∈ d.map (·.1)) : d.has k = true := by
  obtain ⟨e, he, rfl⟩ := List.mem_map.1 hk
  exact List.any_eq_true.2 ⟨e, he, h.found e he⟩

end Document

/-! ## Merging again -/

/-- All dictionaries in a value can come up, as far as they are reached through dictionaries. -/
inductive Value.Nested : Value → Prop
  | dict {d : Document} (keyed : d.Keyed) (values : ∀ e ∈ d, Nested e.2) : Nested (.dict d)
  | plain {v : Value} (h : v.isDict = false) : Nested v

namespace Document

variable {base upper d : Document} {v old : Value} {keys : List Value}

theorem keyed_of_nested (h : (Value.dict d).Nested) : d.Keyed := by
  cases h with
  | dict keyed _ => exact keyed
  | plain h => cases h

theorem nested_of_get? {key : Value} (h : (Value.dict d).Nested) (hget : get? d key = some v) :
    v.Nested := by
  obtain ⟨k, hmem, -⟩ := exists_mem_of_get? hget
  cases h with
  | dict _ values => exact values (k, v) hmem
  | plain h => cases h

theorem mergeValue_plain (h : v.isDict = false) (old : Option Value) : mergeValue old v = v := by
  cases v with
  | dict => cases h
  | _ => simp [mergeValue]

theorem mergeValue_dict (base upper : Document) :
    mergeValue (some (.dict base)) (.dict upper) = .dict (base.merge upper) := by
  rw [mergeValue]

/-- Where there is no dictionary to merge into, a dictionary is put as it is. -/
theorem mergeValue_of_ne {old : Option Value} (h : ∀ base, old ≠ some (.dict base))
    (upper : Document) : mergeValue old (.dict upper) = .dict upper := by
  rw [mergeValue]
  exact h

/-- Merging changes nothing if it leaves every value as it finds it. -/
theorem merge_eq_self
    (h : ∀ e ∈ upper, ∃ old, get? base e.1 = some old ∧ mergeValue (some old) e.2 = old) :
    base.merge upper = base := by
  induction upper with
  | nil => rw [merge]
  | cons e rest ih =>
    obtain ⟨⟨old, hget, hold⟩, hrest⟩ := List.forall_mem_cons.1 h
    rw [merge, hget, hold, put_of_get? hget, ih hrest]

/-- A value merged with itself. -/
theorem mergeValue_self (h : v.Nested) : mergeValue (some v) v = v := by
  induction h with
  | @dict d keyed _ ih =>
    rw [mergeValue_dict, merge_eq_self]
    intro e he
    exact ⟨e.2, keyed.get?_of_mem he, ih e he⟩
  | plain h => exact mergeValue_plain h _

/-- What was merged is merged again. -/
theorem mergeValue_mergeValue (h : v.Nested) (old : Option Value) :
    mergeValue (some (mergeValue old v)) v = mergeValue old v := by
  induction h generalizing old with
  | @dict upper keyed values ih =>
    by_cases hold : ∃ base, old = some (.dict base)
    · obtain ⟨base, rfl⟩ := hold
      rw [mergeValue_dict, mergeValue_dict, merge_eq_self]
      intro e he
      refine ⟨mergeValue (get? base e.1) e.2, ?_, ih e he _⟩
      exact get?_merge_of_get? keyed (keyed.get?_of_mem he) base
    · rw [mergeValue_of_ne (fun base heq => hold ⟨base, heq⟩)]
      exact mergeValue_self (.dict keyed values)
  | plain h => rw [mergeValue_plain h, mergeValue_plain h]

/-- What was merged is merged into what it was merged into. -/
theorem mergeValue_again (h : v.Nested) {old : Option Value} (hold : ∀ w ∈ old, w.Nested) :
    mergeValue old (mergeValue old v) = mergeValue old v := by
  induction h generalizing old with
  | @dict upper keyed values ih =>
    by_cases hdict : ∃ base, old = some (.dict base)
    · obtain ⟨base, rfl⟩ := hdict
      have hbase := keyed_of_nested (hold _ rfl)
      have hall := hbase.merge keyed
      rw [mergeValue_dict, mergeValue_dict]
      congr 1
      refine hall.eq_of_get? ?_ ?_
      · -- Every key that is there comes from the base or is new, so none is added.
        have hnone : (base.map (·.1)).filter (fun key => !has base key) = [] := by
          rw [List.filter_eq_nil_iff]
          intro key hkey
          simp [hbase.has_of_mem hkey]
        rw [map_fst_merge hall, map_fst_merge keyed, List.filter_append, hnone, List.nil_append,
          List.filter_filter]
        simp
      · intro e he
        have hget := hall.get?_of_mem he
        rw [get?_merge_of_get? hall hget]
        cases hupper : get? upper e.1 with
        | none =>
          rw [get?_merge_of_none keyed hupper] at hget
          rw [hget, mergeValue_self (nested_of_get? (hold _ rfl) hget)]
        | some w =>
          rw [get?_merge_of_get? keyed hupper] at hget
          obtain ⟨k, hmem, -⟩ := exists_mem_of_get? hupper
          have hvalues : ∀ w ∈ get? base e.1, w.Nested :=
            fun w hw => nested_of_get? (hold _ rfl) hw
          rw [← Option.some.inj hget, ih (k, w) hmem hvalues]
    · have hother : ∀ base, old ≠ some (.dict base) := fun base heq => hdict ⟨base, heq⟩
      rw [mergeValue_of_ne hother, mergeValue_of_ne hother]
  | plain h => rw [mergeValue_plain h, mergeValue_plain h]

end Document

/-! ## Reading at nested keys -/

/-- What stands at the end of a list of keys, each one of a dictionary under the one before. -/
def Value.under? : Value → List Value → Option Value
  | v, [] => some v
  | .dict d, key :: keys => (Document.get? d key).bind (under? · keys)
  | _, _ :: _ => none

namespace Document

variable {base upper d : Document} {v : Value} {keys : List Value}

/-- What stands in a document at the end of a list of keys. -/
def under? (d : Document) (keys : List Value) : Option Value :=
  (Value.dict d).under? keys

/-- A document says nothing about what stands at the end of a list of keys: nothing stands there,
and no key on the way leads to anything but a dictionary. -/
def LeavesOpen (d : Document) (keys : List Value) : Prop :=
  d.under? keys = none ∧ ∀ front, front <+: keys → ∀ v, d.under? front = some v → v.isDict = true

theorem under?_cons (d : Document) (key : Value) (keys : List Value) :
    d.under? (key :: keys) = (d.get? key).bind (·.under? keys) := by
  rw [under?, Value.under?]

theorem under?_of_isDict (h : v.isDict = false) (key : Value) (keys : List Value) :
    v.under? (key :: keys) = none := by
  cases v <;> first | rfl | cases h

/-- What is no dictionary wins over whatever is there. -/
theorem under?_mergeValue (h : v.Nested) {w : Value} (hw : v.under? keys = some w)
    (hplain : w.isDict = false) (old : Option Value) :
    (mergeValue old v).under? keys = some w := by
  induction keys generalizing v old with
  | nil =>
    cases hw
    rw [mergeValue_plain hplain]
    rfl
  | cons key keys ih =>
    cases h with
    | @dict upper keyed values =>
      by_cases hdict : ∃ base, old = some (.dict base)
      · obtain ⟨base, rfl⟩ := hdict
        rw [Value.under?] at hw
        obtain ⟨v, hget, hw⟩ := Option.bind_eq_some_iff.1 hw
        have hv := nested_of_get? (.dict keyed values) hget
        rw [mergeValue_dict, Value.under?, get?_merge_of_get? keyed hget]
        exact ih hv hw _
      · rw [mergeValue_of_ne fun base heq => hdict ⟨base, heq⟩]
        exact hw
    | plain h =>
      rw [under?_of_isDict h] at hw
      cases hw

/-- What is left open reads as before. -/
theorem under?_merge_of_leavesOpen (h : (Value.dict upper).Nested) (hopen : upper.LeavesOpen keys)
    (base : Document) : (base.merge upper).under? keys = base.under? keys := by
  induction keys generalizing base upper with
  | nil => cases hopen.1
  | cons key keys ih =>
    obtain ⟨hnone, hway⟩ := hopen
    rw [under?_cons] at hnone ⊢
    rw [under?_cons, get?_merge (keyed_of_nested h)]
    cases hget : upper.get? key with
    | none => rfl
    | some v =>
      have hread : ∀ front, upper.under? (key :: front) = v.under? front := by
        intro front
        rw [under?_cons, hget]
        rfl
      have hdict := hway [key] (List.cons_prefix_cons.2 ⟨rfl, List.nil_prefix⟩) v (hread [])
      obtain ⟨inner, rfl⟩ : ∃ inner, v = .dict inner := by
        cases v <;> first | exact ⟨_, rfl⟩ | cases hdict
      have hinner : LeavesOpen inner keys := by
        refine ⟨by simpa [hget, under?] using hnone, ?_⟩
        intro front hfront w hw
        exact hway (key :: front) (List.cons_prefix_cons.2 ⟨rfl, hfront⟩) w ((hread front).trans hw)
      -- Where there is no dictionary to merge into, nothing was read before either.
      by_cases hbase : ∃ old, base.get? key = some (.dict old)
      · obtain ⟨old, hold⟩ := hbase
        rw [hold]
        show (mergeValue _ _).under? keys = _
        rw [mergeValue_dict]
        exact ih (nested_of_get? h hget) hinner old
      · show (mergeValue _ _).under? keys = _
        rw [mergeValue_of_ne fun old heq => hbase ⟨old, heq⟩]
        refine hinner.1.trans ?_
        cases hold : base.get? key with
        | none => rfl
        | some old =>
          have hplain : old.isDict = false := by
            cases old <;> first | rfl | exact absurd ⟨_, hold⟩ hbase
          cases keys with
          | nil => cases hinner.1
          | cons next keys => exact (under?_of_isDict hplain next keys).symm

/-! ## What a merge is -/

/-- One document laid over another: what is no dictionary in it stands in the result as well, what
it leaves open reads as in the one below, and laying either of them there again changes nothing. -/
structure Overlays (upper base result : Document) : Prop where
  kept : ∀ keys v, upper.under? keys = some v → v.isDict = false → result.under? keys = some v
  framed : ∀ keys, upper.LeavesOpen keys → result.under? keys = base.under? keys
  merge_upper : result.merge upper = result
  base_merge : base.merge result = result

theorem overlays_merge (hbase : (Value.dict base).Nested) (hupper : (Value.dict upper).Nested) :
    Overlays upper base (base.merge upper) where
  kept keys v hv hplain := by
    have h := under?_mergeValue hupper hv hplain (some (.dict base))
    rwa [mergeValue_dict] at h
  framed keys hopen := under?_merge_of_leavesOpen hupper hopen base
  merge_upper := by
    have h := mergeValue_mergeValue hupper (some (.dict base))
    simpa [mergeValue_dict] using h
  base_merge := by
    have hold : ∀ w ∈ some (Value.dict base), w.Nested := by
      rintro w ⟨⟩
      exact hbase
    have h := mergeValue_again hupper hold
    simpa [mergeValue_dict] using h

theorem merge_self (h : (Value.dict d).Nested) : d.merge d = d := by
  have hself := mergeValue_self h
  rw [mergeValue_dict] at hself
  exact Value.dict.inj hself

end Document

/-! ## Defaults -/

/-- The entries that a model gives to its new records are those of a document, and none of them is
computed. -/
def Model.StartsWith {σ : Type} (m : Model σ) (d : Document) : Prop :=
  ∃ entries : List (String × Value),
    m.defaults = entries.map (fun e => (e.1, .value e.2)) ∧
      d = entries.map fun e => (.text e.1, e.2)

namespace Lifecycle

variable {σ : Type} {m : Model σ} {base upper : Document} {r : Record} {s : σ}

theorem defaultEntries_values (r : Record) (entries : List (String × Value)) :
    defaultEntries r (entries.map fun e => (e.1, .value e.2)) =
      .ok (entries.map fun e => (.text e.1, e.2)) := by
  induction entries with
  | nil => rfl
  | cons e rest ih =>
    rw [List.map_cons, defaultEntries, ih]
    rfl

theorem run_applyDefaults (hm : m.StartsWith base) (hdata : r.data.Keyed) :
    (applyDefaults m).run (r, s) = (.ok (), { r with data := base.merge r.data }, s) := by
  obtain ⟨entries, hdefaults, hbase⟩ := hm
  have hentries : defaultEntries r m.defaults = .ok base := by
    rw [hdefaults, defaultEntries_values, hbase]
  have hrun : (applyDefaults m).run (r, s) =
      (if !base.isEmpty then modifyData fun d => base.merge d else return).run (r, s) := by
    have hrecord : (record : Step σ Record).run (r, s) = (.ok r, r, s) := rfl
    unfold applyDefaults
    rw [Action.run_bind_ok hrecord, hentries]
    rfl
  rw [hrun]
  cases base with
  | nil =>
    rw [hdata.nil_merge]
    rfl
  | cons => rfl

/-- A merge keeps what the upper document says and reads as the lower one elsewhere, and merging
either document again changes nothing. In this way a model lays the data of a record over what new
records start with, once and for all. -/
theorem overlays_applyDefaults (hbase : (Value.dict base).Nested)
    (hupper : (Value.dict upper).Nested) :
    Document.Overlays upper base (base.merge upper) ∧ base.merge base = base ∧
      ∀ {σ : Type} (m : Model σ) (r : Record) (s : σ), m.StartsWith base → r.data = upper →
        (applyDefaults m).run (r, s) = (.ok (), { r with data := base.merge upper }, s) ∧
        (applyDefaults m).run ({ r with data := base.merge upper }, s) =
          (.ok (), { r with data := base.merge upper }, s) := by
  have hlaid := Document.overlays_merge hbase hupper
  refine ⟨hlaid, Document.merge_self hbase, ?_⟩
  intro σ m r s hm hdata
  subst hdata
  have hkeyed := Document.keyed_of_nested hupper
  refine ⟨run_applyDefaults hm hkeyed, ?_⟩
  have hagain := run_applyDefaults (r := { r with data := base.merge r.data }) (s := s) hm
    ((Document.keyed_of_nested hbase).merge hkeyed)
  rwa [hlaid.base_merge] at hagain

/-- What a shop starts with. -/
def shopDefaults : Document :=
  [(.text "theme", .dict [(.text "color", .text "red"), (.text "size", .int 3)]),
    (.text "hours", .dict [(.text "open", .int 9)])]

/-- A shop without a color, with a font of its own, and with one number for its hours. -/
def plainShop : Document :=
  [(.text "hours", .int 8),
    (.text "theme", .dict [(.text "font", .text "serif"), (.text "color", .null)])]

def shopModel : Model Unit where
  toSchema := Schema.plain "Shop"
  casts := []
  defaults := [("theme", .value (.dict [(.text "color", .text "red"), (.text "size", .int 3)])),
    ("hours", .value (.dict [(.text "open", .int 9)]))]
  joinings := []
  relations := []
  rules := []

/-- The shop keeps its missing color and its number, gets the size, and is not changed again. -/
theorem overlays_applyDefaults_shop :
    shopDefaults.merge (shopDefaults.merge plainShop) = shopDefaults.merge plainShop ∧
    (applyDefaults shopModel).run (⟨"Shop", plainShop, [], false⟩, ()) =
      (.ok (), ⟨"Shop", [(.text "theme", .dict [(.text "color", .null), (.text "size", .int 3),
        (.text "font", .text "serif")]), (.text "hours", .int 8)], [], false⟩, ()) := by
  have hbase : (Value.dict shopDefaults).Nested := by
    refine .dict (Document.keyed_of_texts ["theme", "hours"] rfl (by decide)) ?_
    simp only [shopDefaults, List.forall_mem_cons]
    refine ⟨?_, ?_, nofun⟩
    · refine .dict (Document.keyed_of_texts ["color", "size"] rfl (by decide)) ?_
      simp only [List.forall_mem_cons]
      exact ⟨.plain rfl, .plain rfl, nofun⟩
    · refine .dict (Document.keyed_of_texts ["open"] rfl (by decide)) ?_
      exact List.forall_mem_singleton.2 (.plain rfl)
  have hupper : (Value.dict plainShop).Nested := by
    refine .dict (Document.keyed_of_texts ["hours", "theme"] rfl (by decide)) ?_
    simp only [plainShop, List.forall_mem_cons]
    refine ⟨.plain rfl, ?_, nofun⟩
    refine .dict (Document.keyed_of_texts ["font", "color"] rfl (by decide)) ?_
    simp only [List.forall_mem_cons]
    exact ⟨.plain rfl, .plain rfl, nofun⟩
  have hmerged : shopDefaults.merge plainShop =
      [(.text "theme", .dict [(.text "color", .null), (.text "size", .int 3),
        (.text "font", .text "serif")]), (.text "hours", .int 8)] := by
    simp [shopDefaults, plainShop, Document.merge, Document.mergeValue, Document.get?,
      Document.put, Value.same, Value.sameScalar]
  obtain ⟨hlaid, -, hrun⟩ := overlays_applyDefaults hbase hupper
  have hstarts : shopModel.StartsWith shopDefaults := ⟨[("theme", _), ("hours", _)], rfl, rfl⟩
  refine ⟨hlaid.base_merge, ?_⟩
  rw [← hmerged]
  exact (hrun shopModel ⟨"Shop", plainShop, [], false⟩ () hstarts rfl).1

end Lifecycle

end DocumentMapper
