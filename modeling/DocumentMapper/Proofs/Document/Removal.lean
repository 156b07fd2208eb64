import DocumentMapper.Proofs.Document.Projection
import DocumentMapper.Proofs.Path.Erase
import DocumentMapper.Proofs.Path.Independence

/-!
# Documents without some columns

Columns are erased one after another. An erased path takes away what it leads to if its last segment
is the key of a dictionary, and with it all that lies inside; the elements of a list stay where they
are, so that an erased position is still read. Since no list becomes shorter, what a path leads to
does not shift when another one is erased: the paths that can no longer be read in the end are those
that lie inside one of the erased keys, as they stood at first, and whatever is independent of all
of the erased paths reads as before.
-/

namespace DocumentMapper

namespace Path

variable {v v' c x : Value} {p q r rest : Path} {key l : String}

/-- Whether a path leads to a place inside the one that another path leads to, or to that place
itself. -/
inductive Encloses : Value → Path → Path → Prop
  | here {v : Value} {q : Path} : Encloses v [] q
  | inside {v c : Value} {k l : String} {p q : Path} :
      SamePart k l v → child? v k = .ok (some c) → Encloses c p q →
      Encloses v (k :: p) (l :: q)

/-! ## What erasing does to the parts -/

theorem get?_singleton (v : Value) (key : String) : get? v [key] = child? v key := by
  rw [get?]
  cases child? v key with
  | error e => rfl
  | ok found => cases found <;> rfl

/-- A part after something was erased: the same as before, nothing, or what something was erased
from. -/
theorem child?_erase_cases (h : erase r v = .ok v') (key : String) :
    child? v' key = child? v key ∨ child? v' key = .ok none ∨
    ∃ rest c c', child? v key = .ok (some c) ∧ erase rest c = .ok c' ∧
      child? v' key = .ok (some c') := by
  simp only [← get?_singleton]
  obtain hsame | hnone | ⟨rest, c, c', -, hc, hbelow, hc'⟩ := get?_erase_cases h [key]
  · exact .inl hsame
  · exact .inr (.inl hnone)
  · exact .inr (.inr ⟨rest, c, c', hc, hbelow, hc'⟩)

/-- Every part that is left comes from the part that was there. -/
theorem exists_child?_of_erase (h : erase r v = .ok v') (hc : child? v' key = .ok (some c)) :
    ∃ rest b, child? v key = .ok (some b) ∧ erase rest b = .ok c := by
  obtain hsame | hnone | ⟨rest, b, c', hb, hbelow, hc'⟩ := child?_erase_cases h key
  · exact ⟨[], c, hsame.symm.trans hc, rfl⟩
  · cases hnone.symm.trans hc
  · cases hc.symm.trans hc'
    exact ⟨rest, b, hb, hbelow⟩

/-- Erasing does not change which segments name the same part. -/
theorem samePart_erase (h : erase r v = .ok v') : SamePart key l v' ↔ SamePart key l v := by
  cases r with
  | nil => rw [← Except.ok.inj h]
  | cons m rest =>
    by_cases hrest : rest = []
    · subst hrest
      cases v with
      | dict d =>
        obtain rfl : .dict (Document.eraseField d m) = v' := Except.ok.inj h
        rfl
      | _ => rw [← Except.ok.inj h]
    · rcases erase_cons_eq_ok hrest h with ⟨-, rfl⟩ | ⟨_, _, _, rfl, -, -, rfl⟩ |
        ⟨_, _, _, _, rfl, -, -, -, rfl⟩ <;> rfl

/-- Erasing at or below one segment leaves alone the parts that other segments name. -/
theorem child?_erase_of_not_samePart (hl : ¬ SamePart key l v)
    (h : erase (key :: rest) v = .ok v') : child? v' l = child? v l := by
  by_cases hrest : rest = []
  · subst hrest
    cases v with
    | dict d =>
      obtain rfl : .dict (Document.eraseField d key) = v' := Except.ok.inj h
      have hne : l ≠ key := fun he => hl he.symm
      simp [child?, Document.field?_eraseField_of_ne hne]
    | _ => rw [← Except.ok.inj h]
  · rcases erase_cons_eq_ok hrest h with ⟨-, rfl⟩ | ⟨d, c, below, rfl, -, -, rfl⟩ |
      ⟨items, i, c, below, rfl, hi, -, -, rfl⟩
    · rfl
    · have hne : l ≠ key := fun he => hl he.symm
      simp [child?, Document.field?_putField_of_ne hne]
    · refine child?_list_congr fun j hj => List.getElem?_set_ne ?_
      rintro rfl
      exact hl (hi.trans hj.symm)

/-- Erasing below a segment erases from the part that the segment names, under whatever segment
that part is found afterwards. -/
theorem child?_erase_of_samePart (hl : SamePart key l v) (hrest : rest ≠ [])
    (h : erase (key :: rest) v = .ok v') :
    (child? v key = .ok none ∧ v' = v) ∨ ∃ c c', child? v key = .ok (some c) ∧
      erase rest c = .ok c' ∧ child? v' l = .ok (some c') := by
  rcases erase_cons_eq_ok hrest h with hnone | ⟨d, c, below, rfl, hc, hb, rfl⟩ |
    ⟨items, i, c, below, rfl, hi, hc, hb, rfl⟩
  · exact .inl hnone
  · obtain rfl : key = l := hl
    exact .inr ⟨c, below, congrArg Except.ok hc, hb,
      congrArg Except.ok (Document.field?_putField_self d key below)⟩
  · have hposition : position? l = some i := Eq.trans (Eq.symm hl) hi
    refine .inr ⟨c, below, (child?_list_of_position? hi).trans (congrArg Except.ok hc), hb, ?_⟩
    rw [child?_list_of_position? hposition, List.getElem?_set_self (lt_length_of_getElem? hc)]

/-! ## Independent paths -/

/-- Independent paths stay independent whatever is erased. -/
theorem Independent.erase (h : Independent v p q) (he : erase r v = .ok v') :
    Independent v' p q := by
  induction h generalizing r v' with
  | parted hparted => exact .parted fun hsame => hparted ((samePart_erase he).1 hsame)
  | inside hsame _ ih =>
    refine .inside ((samePart_erase he).2 hsame) fun c hc => ?_
    obtain ⟨rest, b, hb, hbelow⟩ := exists_child?_of_erase he hc
    exact ih b hb hbelow

/-- Erasing leaves alone what an independent path reads. -/
theorem Independent.get?_erase (h : Independent v p q) (he : Path.erase p v = .ok v') :
    get? v' q = get? v q := by
  induction h generalizing v' with
  | parted hparted => rw [get?, get?, child?_erase_of_not_samePart hparted he]
  | @inside v k l p q hsame hbelow ih =>
    by_cases hp : p = []
    · -- Nothing is independent of a whole value, so there is nothing under the segment.
      subst hp
      have hnone (c : Value) : child? v k ≠ .ok (some c) := by
        intro hc
        obtain ⟨_, _, hcons⟩ := (hbelow c hc).exists_cons
        cases hcons
      cases v with
      | dict d =>
        obtain rfl : k = l := hsame
        obtain rfl : .dict (Document.eraseField d k) = v' := Except.ok.inj he
        have hfield : Document.field? d k = none :=
          Option.eq_none_iff_forall_ne_some.2 fun c hc => hnone c (congrArg Except.ok hc)
        rw [get?_dict_cons, get?_dict_cons, Document.field?_eraseField_self, hfield]
      | _ => rw [← Except.ok.inj he]
    · obtain ⟨-, rfl⟩ | ⟨c, c', hc, he, hc'⟩ := child?_erase_of_samePart hsame hp he
      · rfl
      · rw [get?, get?, hc', hsame.child?_eq_some hc]
        exact ih c hc he

/-! ## Enclosed paths -/

theorem Encloses.exists_get? (h : Encloses v p q) : ∃ b, get? v p = .ok (some b) := by
  induction h with
  | here => exact ⟨_, rfl⟩
  | inside _ hc _ ih =>
    obtain ⟨b, hb⟩ := ih
    exact ⟨b, by rw [get?, hc]; exact hb⟩

theorem SamePart.refl (key : String) (v : Value) : SamePart key key v := by
  cases v <;> first | rfl | trivial

/-- What can be read encloses itself. -/
theorem encloses_self (h : get? v p = .ok (some c)) : Encloses v p p := by
  induction p generalizing v with
  | nil => exact .here
  | cons key rest ih =>
    obtain ⟨found, hfound, h⟩ := Outcome.bind_eq_ok.1 h
    cases found with
    | none => cases h
    | some b => exact .inside (SamePart.refl key v) hfound (ih h)

/-- A path that is enclosed after something was erased was enclosed before. -/
theorem Encloses.of_erase (he : Path.erase r v = .ok v') (h : Encloses v' p q) :
    Encloses v p q := by
  induction h generalizing r v with
  | here => exact .here
  | inside hsame hc _ ih =>
    obtain ⟨rest, b, hb, hbelow⟩ := exists_child?_of_erase he hc
    exact .inside ((samePart_erase he).1 hsame) hb (ih hbelow)

/-- A path that can still be read is still enclosed. -/
theorem Encloses.erase (h : Encloses v p q) (he : Path.erase r v = .ok v')
    (hq : get? v' q = .ok (some x)) : Encloses v' p q := by
  induction h generalizing r v' with
  | here => exact .here
  | inside hsame hc _ ih =>
    have hsame' := (samePart_erase he).2 hsame
    obtain ⟨found, hfound, hq⟩ := Outcome.bind_eq_ok.1 hq
    cases found with
    | none => cases hq
    | some b' =>
      have hb' := hsame'.symm.child?_eq_some hfound
      obtain ⟨rest, b, hb, hbelow⟩ := exists_child?_of_erase he hb'
      cases hc.symm.trans hb
      exact .inside hsame' hb' (ih hbelow hq)

theorem encloses_cons (hc : child? v key = .ok (some c)) :
    Encloses v (key :: p) (l :: q) ↔ SamePart key l v ∧ Encloses c p q := by
  constructor
  · rintro (_ | ⟨hsame, hb, h⟩)
    cases hc.symm.trans hb
    exact ⟨hsame, h⟩
  · rintro ⟨hsame, h⟩
    exact .inside hsame hc h

theorem keyed_cons (hrest : rest ≠ []) (hc : child? v key = .ok (some c)) :
    Keyed v (key :: rest) ↔ Keyed c rest := by
  rw [Keyed, Keyed, List.dropLast_cons_of_ne_nil hrest, get?_cons_of_child? hc]

/-- A part that is erased is gone exactly if it has a key. -/
theorem get?_erase_part_eq_none_iff (hsame : SamePart key l v) (he : erase [key] v = .ok v')
    (hq : get? v (l :: q) = .ok (some x)) :
    get? v' (l :: q) = .ok none ↔ Keyed v [key] := by
  cases v with
  | dict d =>
    obtain rfl : key = l := hsame
    obtain rfl : .dict (Document.eraseField d key) = v' := Except.ok.inj he
    refine iff_of_true ?_ ⟨.dict d, rfl, rfl⟩
    rw [get?_dict_cons, Document.field?_eraseField_self]
  | _ =>
    obtain rfl := Except.ok.inj he
    refine iff_of_false (fun h => nomatch h.symm.trans hq) ?_
    rintro ⟨b, ⟨⟩, hdict⟩
    cases hdict

/-- What erasing takes away: the paths that lie inside the erased one, if that has a key. -/
theorem get?_erase_eq_none_iff (hp : p ≠ []) (he : erase p v = .ok v')
    (hq : get? v q = .ok (some x)) :
    get? v' q = .ok none ↔ Keyed v p ∧ Encloses v p q := by
  induction p generalizing v v' q with
  | nil => exact absurd rfl hp
  | cons key rest ih =>
    cases q with
    | nil =>
      constructor
      · intro hnone
        cases hnone
      · rintro ⟨-, ⟨⟩⟩
    | cons l q =>
      by_cases hsame : SamePart key l v
      · obtain ⟨c, hl, hread⟩ := get?_cons_eq_some hq
        have hc := hsame.symm.child?_eq_some hl
        rw [encloses_cons hc]
        by_cases hrest : rest = []
        · subst hrest
          rw [get?_erase_part_eq_none_iff hsame he hq, and_iff_left ⟨hsame, .here⟩]
        · rw [keyed_cons hrest hc]
          obtain ⟨hnone, -⟩ | ⟨b, b', hb, he, hb'⟩ := child?_erase_of_samePart hsame hrest he
          · cases hnone.symm.trans hc
          · cases hc.symm.trans hb
            rw [get?_cons_of_child? hb', ih hrest he hread, and_iff_right hsame]
      · have hkept : get? v' (l :: q) = .ok (some x) := by
          rw [get?, child?_erase_of_not_samePart hsame he]
          exact hq
        constructor
        · intro hnone
          cases hnone.symm.trans hkept
        · rintro ⟨-, _ | ⟨h, -, -⟩⟩
          exact absurd h hsame

/-- Where a path can be looked up something can be erased. -/
theorem exists_erase {found : Option Value} (h : get? v p = .ok found) :
    ∃ v', erase p v = .ok v' := by
  induction p generalizing v with
  | nil => exact ⟨v, rfl⟩
  | cons key rest ih =>
    cases rest with
    | nil => cases v <;> exact ⟨_, rfl⟩
    | cons l rest =>
      obtain ⟨part, hpart, hbelow⟩ := Outcome.bind_eq_ok.1 h
      unfold erase
      rw [hpart]
      cases part with
      | none => exact ⟨v, rfl⟩
      | some c =>
        obtain ⟨below, hb⟩ := ih hbelow
        simp only [hb, bind, Except.bind]
        cases v with
        | dict d => exact ⟨_, rfl⟩
        | list items =>
          obtain ⟨i, hi, -⟩ := child?_list_eq_some hpart
          rw [replaceChild, (position?_eq_some.1 hi).2]
          exact ⟨_, rfl⟩
        | _ => cases hpart

/-- Erasing what has no key changes nothing. -/
theorem erase_of_not_keyed {found : Option Value} (h : get? v p = .ok found)
    (hkeyed : ¬ Keyed v p) : erase p v = .ok v := by
  obtain ⟨v', he⟩ := exists_erase h
  rw [he]
  congr 1
  induction p generalizing v v' with
  | nil => exact (Except.ok.inj he).symm
  | cons key rest ih =>
    by_cases hrest : rest = []
    · subst hrest
      cases v with
      | dict d => exact absurd ⟨.dict d, rfl, rfl⟩ hkeyed
      | _ => exact (Except.ok.inj he).symm
    · rcases erase_cons_eq_ok hrest he with ⟨-, rfl⟩ | ⟨d, c, below, rfl, hc, hb, rfl⟩ |
        ⟨items, i, c, below, rfl, hi, hc, hb, rfl⟩
      · rfl
      · have hchild : child? (.dict d) key = .ok (some c) := congrArg Except.ok hc
        rw [keyed_cons hrest hchild] at hkeyed
        rw [get?_cons_of_child? hchild] at h
        rw [ih h hkeyed _ hb, Document.putField_of_field? hc]
      · have hchild : child? (.list items) key = .ok (some c) :=
          (child?_list_of_position? hi).trans (congrArg Except.ok hc)
        rw [keyed_cons hrest hchild] at hkeyed
        rw [get?_cons_of_child? hchild] at h
        obtain ⟨hlt, rfl⟩ := List.getElem?_eq_some_iff.1 hc
        rw [ih h hkeyed _ hb, List.set_getElem_self]

end Path

namespace Document

open DocumentMapper.Path

variable {d d' : Document} {columns : List String} {column other : String} {x : Value}

theorem hasColumn_eq_true :
    d.hasColumn column = .ok true ↔ ∃ x, d.column? column = .ok (some x) := by
  rw [hasColumn, Path.has, Outcome.bind_eq_ok]
  constructor
  · rintro ⟨found, hfound, hsome⟩
    obtain ⟨x, rfl⟩ := Option.isSome_iff_exists.1 (Except.ok.inj hsome)
    exact ⟨x, hfound⟩
  · rintro ⟨x, hx⟩
    exact ⟨some x, hx, rfl⟩

theorem hasColumn_eq_false : d.hasColumn column = .ok false ↔ d.column? column = .ok none := by
  rw [hasColumn, Path.has, Outcome.bind_eq_ok]
  constructor
  · rintro ⟨found, hfound, hnone⟩
    rw [Option.not_isSome_iff_eq_none.1 (Bool.eq_false_iff.1 (Except.ok.inj hnone))] at hfound
    exact hfound
  · intro hnone
    exact ⟨none, hnone, rfl⟩

/-- A column that can be looked up can be erased. -/
theorem exists_eraseColumn (h : ∃ found, d.column? column = .ok found) :
    ∃ d', d.eraseColumn column = .ok d' := by
  obtain ⟨found, hfound⟩ := h
  obtain ⟨v', he⟩ := exists_erase hfound
  exact ⟨v'.entries, by rw [eraseColumn, he]; rfl⟩

/-- Columns that can be looked up still can when one of them was erased. -/
theorem exists_column?_of_eraseColumn (he : d.eraseColumn column = .ok d')
    (h : ∃ found, d.column? other = .ok found) : ∃ found, d'.column? other = .ok found := by
  obtain ⟨found, hfound⟩ := h
  obtain hsame | hnone | ⟨_, _, c', -, -, -, hc'⟩ :=
    get?_erase_cases (eraseColumn_eq_ok.1 he) (ofText other)
  · exact ⟨found, hsame.trans hfound⟩
  · exact ⟨none, hnone⟩
  · exact ⟨some c', hc'⟩

/-- What cannot be read does not come back when more is erased. -/
theorem get?_eq_none_of_without {q : Path} (h : Path.get? (.dict d) q = .ok none)
    (hw : d.without columns = .ok d') : Path.get? (.dict d') q = .ok none := by
  refine Sync.foldlM_preserves (P := fun d : Document => Path.get? (.dict d) q = .ok none)
    (fun c _ d d' he hnone => ?_) h hw
  obtain hsame | hgone | ⟨_, _, _, -, hc, -, -⟩ := get?_erase_cases (eraseColumn_eq_ok.1 he) q
  · exact hsame.trans hnone
  · exact hgone
  · cases hnone.symm.trans hc

/-- What a document reads at any path after columns were erased in turn. -/
theorem exists_without (h : ∀ c ∈ columns, ∃ found, d.column? c = .ok found) :
    ∃ d', d.without columns = .ok d' ∧
      (∀ q x, Path.get? (.dict d) q = .ok (some x) → (Path.get? (.dict d') q = .ok none ↔
        ∃ c ∈ columns, Keyed (.dict d) (ofText c) ∧ Encloses (.dict d) (ofText c) q)) ∧
      ∀ q, (∀ c ∈ columns, Independent (.dict d) (ofText c) q) →
        Path.get? (.dict d') q = Path.get? (.dict d) q := by
  induction columns generalizing d with
  | nil =>
    refine ⟨d, rfl, fun q x hq => ?_, fun _ _ => rfl⟩
    refine iff_of_false (fun hnone => nomatch hnone.symm.trans hq) ?_
    rintro ⟨c, ⟨⟩, -⟩
  | cons c rest ih =>
    obtain ⟨hc, hrest⟩ := List.forall_mem_cons.1 h
    obtain ⟨d₁, hd₁⟩ := exists_eraseColumn hc
    have he := eraseColumn_eq_ok.1 hd₁
    obtain ⟨d', hd', hgone, hkept⟩ :=
      ih fun c' hc' => exists_column?_of_eraseColumn hd₁ (hrest c' hc')
    have hwithout : d.without (c :: rest) = .ok d' := Outcome.foldlM_cons_eq_ok.2 ⟨d₁, hd₁, hd'⟩
    refine ⟨d', hwithout, fun q x hq => ?_, fun q hq => ?_⟩
    · rw [List.exists_mem_cons_iff, ← get?_erase_eq_none_iff (ofText_ne_nil c) he hq]
      obtain ⟨found, hfound⟩ : ∃ found, Path.get? (.dict d₁) q = .ok found := by
        obtain hsame | hnone | ⟨_, _, x', -, -, -, hx'⟩ := get?_erase_cases he q
        · exact ⟨_, hsame.trans hq⟩
        · exact ⟨_, hnone⟩
        · exact ⟨_, hx'⟩
      cases found with
      | none => exact iff_of_true (get?_eq_none_of_without hfound hd') (.inl hfound)
      | some x₁ =>
        rw [or_iff_right (fun hnone => nomatch hnone.symm.trans hfound), hgone q x₁ hfound]
        refine exists_congr fun c' => and_congr_right fun _ => ?_
        constructor
        · rintro ⟨hkeyed, hencloses⟩
          obtain ⟨b, hb⟩ := hencloses.exists_get?
          exact ⟨(keyed_erase_iff he hb).1 hkeyed, hencloses.of_erase he⟩
        · rintro ⟨hkeyed, hencloses⟩
          have hleft := hencloses.erase he hfound
          obtain ⟨b, hb⟩ := hleft.exists_get?
          exact ⟨(keyed_erase_iff he hb).2 hkeyed, hleft⟩
    · obtain ⟨hfirst, hmore⟩ := List.forall_mem_cons.1 hq
      rw [hkept q fun c' hc' => (hmore c' hc').erase he, hfirst.get?_erase he]

/-- One column after it was erased by itself. -/
theorem hasColumn_eraseColumn (h : ∃ found, d.column? column = .ok found)
    (he : d.eraseColumn column = .ok d') :
    d'.hasColumn column = .ok false ↔
      (d.hasColumn column = .ok true → Keyed (.dict d) (ofText column)) := by
  rw [hasColumn_eq_false, hasColumn_eq_true]
  obtain ⟨found, hfound⟩ := h
  cases found with
  | none =>
    refine iff_of_true ?_ ?_
    · have hwithout : d.without [column] = .ok d' := Outcome.foldlM_cons_eq_ok.2 ⟨d', he, rfl⟩
      exact get?_eq_none_of_without hfound hwithout
    · rintro ⟨x, hx⟩
      cases hfound.symm.trans hx
  | some x =>
    have hgone := get?_erase_eq_none_iff (ofText_ne_nil column) (eraseColumn_eq_ok.1 he) hfound
    rw [column?, hgone, and_iff_left (encloses_self hfound)]
    exact ⟨fun hkeyed _ => hkeyed, fun hkeyed => hkeyed ⟨x, hfound⟩⟩

/-- A record of which columns are unset in turn keeps everything but its data. -/
theorem foldlM_unset (r : Record) (hw : r.data.without columns = .ok d') :
    columns.foldlM Record.unset r = .ok { r with data := d' } := by
  induction columns generalizing r with
  | nil => rw [← Outcome.foldlM_nil_eq_ok.1 hw]; rfl
  | cons c rest ih =>
    obtain ⟨d₁, hc, hrest⟩ := Outcome.foldlM_cons_eq_ok.1 hw
    have hunset : r.unset c = .ok { r with data := d₁ } := by
      rw [Record.unset, hc]
      rfl
    exact Outcome.foldlM_cons_eq_ok.2 ⟨_, hunset, ih { r with data := d₁ } hrest⟩

/-- The document without columns that can all be looked up. A column that ends in the key of a
dictionary cannot be read when it was erased by itself, a column that ends in the position of a list
is left with the document as it was, and what is independent of the column reads as before. When the
columns are erased in turn, the paths are lost that lie inside a column which ends in a key, and
what is independent of all columns reads as before, so that none of the columns can be read exactly
if each one that could lies inside such a column. It is what a record keeps when the columns are
unset, and what is embedded of one whose schema leaves them out. -/
theorem without_removes_iff (h : ∀ c ∈ columns, ∃ found, d.column? c = .ok found) :
    (∀ c ∈ columns, ∃ d', d.eraseColumn c = .ok d' ∧
      (d'.hasColumn c = .ok false ↔
        (d.hasColumn c = .ok true → Keyed (.dict d) (ofText c))) ∧
      (¬ Keyed (.dict d) (ofText c) → d' = d) ∧
      ∀ other, Independent (.dict d) (ofText c) (ofText other) →
        d'.column? other = d.column? other) ∧
    ∃ d', d.without columns = .ok d' ∧
      (∀ other, d.hasColumn other = .ok true → (d'.hasColumn other = .ok false ↔
        ∃ c ∈ columns, Keyed (.dict d) (ofText c) ∧
          Encloses (.dict d) (ofText c) (ofText other))) ∧
      (∀ other, (∀ c ∈ columns, Independent (.dict d) (ofText c) (ofText other)) →
        d'.column? other = d.column? other) ∧
      ((∀ c ∈ columns, d'.hasColumn c = .ok false) ↔
        ∀ c ∈ columns, d.hasColumn c = .ok true → ∃ c' ∈ columns,
          Keyed (.dict d) (ofText c') ∧ Encloses (.dict d) (ofText c') (ofText c)) ∧
      (∀ r : Record, r.data = d → columns.foldlM Record.unset r = .ok { r with data := d' }) ∧
      ∀ (s : Schema) (r : Record), s.embeddedExcept = columns → columns ≠ [] → r.data = d →
        r.embedded s = .ok d' := by
  refine ⟨fun c hc => ?_, ?_⟩
  · obtain ⟨d', he⟩ := exists_eraseColumn (h c hc)
    refine ⟨d', he, hasColumn_eraseColumn (h c hc) he, fun hkeyed => ?_,
      fun other hother => hother.get?_erase (eraseColumn_eq_ok.1 he)⟩
    obtain ⟨found, hfound⟩ := h c hc
    have hsame := (eraseColumn_eq_ok.1 he).symm.trans (erase_of_not_keyed hfound hkeyed)
    exact Value.dict.inj (Except.ok.inj hsame)
  obtain ⟨d', hw, hgone, hkept⟩ := exists_without h
  have hlost (other : String) (hother : d.hasColumn other = .ok true) :
      d'.hasColumn other = .ok false ↔ ∃ c ∈ columns, Keyed (.dict d) (ofText c) ∧
        Encloses (.dict d) (ofText c) (ofText other) := by
    obtain ⟨x, hx⟩ := hasColumn_eq_true.1 hother
    rw [hasColumn_eq_false, column?, hgone _ x hx]
  refine ⟨d', hw, hlost, fun other => hkept (ofText other), ?_, ?_, ?_⟩
  · refine forall₂_congr fun c hc => ?_
    obtain ⟨found, hfound⟩ := h c hc
    cases found with
    | none =>
      have hnone := get?_eq_none_of_without hfound hw
      refine iff_of_true (hasColumn_eq_false.2 hnone) fun hhas => ?_
      obtain ⟨x, hx⟩ := hasColumn_eq_true.1 hhas
      cases hfound.symm.trans hx
    | some x =>
      have hhas : d.hasColumn c = .ok true := hasColumn_eq_true.2 ⟨x, hfound⟩
      rw [hlost c hhas, forall_prop_of_true hhas]
  · rintro r rfl
    exact foldlM_unset r hw
  · rintro s r rfl hne rfl
    rw [Record.embedded, if_pos (by simpa using hne), hw]

/-- Of an order the name of the first item is left out, by another spelling of its position. The
second item stays. -/
theorem without_removes_iff_items :
    (∀ c ∈ ["items.00.name", "status.by", "items.1"], ∃ found, order.column? c = .ok found) ∧
    ∃ d', order.without ["items.00.name", "status.by", "items.1"] = .ok d' ∧
      d'.hasColumn "items.0.name" = .ok false ∧ d'.hasColumn "items.1" ≠ .ok false ∧
      d'.column? "id" = .ok (some (.int 31)) := by
  have h : ∀ c ∈ ["items.00.name", "status.by", "items.1"],
      ∃ found, order.column? c = .ok found := by
    simp only [List.forall_mem_cons]
    exact ⟨⟨_, rfl⟩, ⟨_, rfl⟩, ⟨_, rfl⟩, List.forall_mem_nil _⟩
  obtain ⟨-, d', hw, hlost, hkept, -⟩ := without_removes_iff h
  refine ⟨h, d', hw, ?_, fun hgone => ?_, hkept "id" ?_⟩
  · refine (hlost "items.0.name" rfl).2 ⟨_, List.mem_cons_self, ⟨_, rfl, rfl⟩, ?_⟩
    exact .inside rfl rfl (.inside (by decide : position? "00" = position? "0") rfl
      (.inside rfl rfl .here))
  · obtain ⟨c, hc, hkeyed, hencloses⟩ := (hlost "items.1" rfl).1 hgone
    simp only [List.mem_cons, List.not_mem_nil, or_false] at hc
    rcases hc with rfl | rfl | rfl
    · obtain _ | ⟨-, ⟨⟩, hbelow⟩ := hencloses
      obtain _ | ⟨hsame, -, -⟩ := hbelow
      exact absurd hsame (by decide : position? "00" ≠ position? "1")
    · obtain _ | ⟨hsame, -, -⟩ := hencloses
      exact absurd hsame (by decide : "status" ≠ "items")
    · obtain ⟨b, ⟨⟩, hdict⟩ := hkeyed
      cases hdict
  · simp only [List.forall_mem_cons]
    exact ⟨.parted (by decide : "items" ≠ "id"), .parted (by decide : "status" ≠ "id"),
      .parted (by decide : "items" ≠ "id"), List.forall_mem_nil _⟩

/-- An order with two marks. -/
def marked : Document :=
  [(.text "id", .int 31), (.text "tags", .list [.text "new", .text "vip"])]

/-- An element of a list can be looked up as before when it was erased. -/
theorem not_removed_mark : ¬ ∀ (d d' : Document) (column : String),
    (∃ found, d.column? column = .ok found) → d.eraseColumn column = .ok d' →
      d'.hasColumn column = .ok false := by
  intro h
  have hgone := h marked marked "tags.1" ⟨_, rfl⟩ rfl
  cases hgone

end Document

end DocumentMapper
