import DocumentMapper.Proofs.Path.Apart

/-!
# Erasing by path

What a path reads after another one was erased. Erasing takes out a key of a dictionary and never
an element of a list, so whether it has an effect depends on what the last segment is looked up in.
It leaves alone what lies apart.
-/

namespace DocumentMapper.Path

variable {v v' c : Value} {p q rest : Path} {key : String}

/-- Whether the last segment of a path is looked up in a dictionary. -/
def Keyed (v : Value) (p : Path) : Prop :=
  ∃ b, get? v p.dropLast = .ok (some b) ∧ b.isDict = true

/-- The ways in which erasing below a segment succeeds: there is nothing, or it goes on in a
dictionary or a list. -/
theorem erase_cons_eq_ok (hrest : rest ≠ []) (h : erase (key :: rest) v = .ok v') :
    (child? v key = .ok none ∧ v' = v) ∨
    (∃ (d : Document) (c below : Value), v = .dict d ∧ d.field? key = some c ∧
      erase rest c = .ok below ∧ v' = .dict (d.putField key below)) ∨
    (∃ items i c below, v = .list items ∧ position? key = some i ∧ items[i]? = some c ∧
      erase rest c = .ok below ∧ v' = .list (items.set i below)) := by
  obtain ⟨l, rest, rfl⟩ := List.exists_cons_of_ne_nil hrest
  unfold erase at h
  obtain ⟨found, hc, h⟩ := Outcome.bind_eq_ok.1 h
  cases found with
  | none => exact .inl ⟨hc, (Except.ok.inj h).symm⟩
  | some c =>
    obtain ⟨below, hb, h⟩ := Outcome.bind_eq_ok.1 h
    cases v with
    | dict d => exact .inr (.inl ⟨d, c, below, rfl, Except.ok.inj hc, hb, (Except.ok.inj h).symm⟩)
    | list items =>
      obtain ⟨i, hi, hc⟩ := child?_list_eq_some hc
      rw [replaceChild, (position?_eq_some.1 hi).2] at h
      exact .inr (.inr ⟨items, i, c, below, rfl, hi, hc, hb, (Except.ok.inj h).symm⟩)
    | _ => cases hc

/-- Erasing leaves alone what lies apart. -/
theorem get?_erase_of_apart (hpq : apart p q = true) (h : erase p v = .ok v') :
    get? v' q = get? v q := by
  induction p generalizing v v' q with
  | nil => simp [apart] at hpq
  | cons key rest ih =>
    obtain ⟨l, q, rfl⟩ := List.exists_cons_of_ne_nil (ne_nil_of_apart hpq)
    by_cases hrest : rest = []
    · subst hrest
      have hl : l ≠ key := by
        rintro rfl
        simp [apart] at hpq
      cases v with
      | dict d =>
        obtain rfl : .dict (Document.eraseField d key) = v' := Except.ok.inj h
        rw [get?_dict_cons, get?_dict_cons, Document.field?_eraseField_of_ne hl]
      | _ => rw [← Except.ok.inj h]
    · rcases erase_cons_eq_ok hrest h with ⟨-, rfl⟩ | ⟨d, c, below, rfl, hc, hb, rfl⟩ |
        ⟨items, i, c, below, rfl, hi, hc, hb, rfl⟩
      · rfl
      · by_cases hl : key = l
        · subst hl
          rw [apart_cons_self] at hpq
          rw [get?_dict_cons, get?_dict_cons, Document.field?_putField_self, hc]
          exact ih hpq hb
        · rw [get?_dict_cons, get?_dict_cons, Document.field?_putField_of_ne (Ne.symm hl)]
      · by_cases hl : key = l
        · subst hl
          rw [apart_cons_self] at hpq
          rw [get?_list_cons hi, get?_list_cons hi, hc,
            List.getElem?_set_self (lt_length_of_getElem? hc)]
          exact ih hpq hb
        · rw [apart_cons_of_ne hl] at hpq
          refine get?_list_congr (fun j hj => List.getElem?_set_ne ?_) q
          rintro rfl
          exact position?_ne_of_parted hpq hi hj

/-- What stood at the path is gone afterwards if it had a key, and else it is still there. -/
theorem get?_erase_self (hp : p ≠ []) (hc : get? v p = .ok (some c)) (h : erase p v = .ok v') :
    (Keyed v p ∧ get? v' p = .ok none) ∨ (¬ Keyed v p ∧ get? v' p = .ok (some c)) := by
  induction p generalizing v v' with
  | nil => exact absurd rfl hp
  | cons key rest ih =>
    by_cases hrest : rest = []
    · subst hrest
      cases v with
      | dict d =>
        obtain rfl : .dict (Document.eraseField d key) = v' := Except.ok.inj h
        refine .inl ⟨⟨.dict d, rfl, rfl⟩, ?_⟩
        rw [get?_dict_cons, Document.field?_eraseField_self]
      | list items =>
        cases h
        refine .inr ⟨?_, hc⟩
        rintro ⟨b, ⟨⟩, hdict⟩
        cases hdict
      | _ => cases hc
    · have hkeyed (w : Value) : Keyed w (key :: rest) ↔
          ∃ b, get? w (key :: rest.dropLast) = .ok (some b) ∧ b.isDict = true := by
        rw [Keyed, List.dropLast_cons_of_ne_nil hrest]
      rw [hkeyed]
      rcases erase_cons_eq_ok hrest h with ⟨hnone, rfl⟩ | ⟨d, b, below, rfl, hb, hbelow, rfl⟩ |
        ⟨items, i, b, below, rfl, hi, hb, hbelow, rfl⟩
      · rw [get?, hnone] at hc
        cases hc
      · rw [get?_dict_cons, hb] at hc
        rw [get?_dict_cons, get?_dict_cons, Document.field?_putField_self, hb]
        exact ih hrest hc hbelow
      · rw [get?_list_cons hi, hb] at hc
        rw [get?_list_cons hi, get?_list_cons hi, hb,
          List.getElem?_set_self (lt_length_of_getElem? hb)]
        exact ih hrest hc hbelow

/-- What any path reads after something was erased: the same as before, nothing, or what something
was erased from. -/
theorem get?_erase_cases (h : erase p v = .ok v') (q : Path) :
    get? v' q = get? v q ∨ get? v' q = .ok none ∨
    (∃ rest c c', rest ≠ [] ∧ get? v q = .ok (some c) ∧ erase rest c = .ok c' ∧
      get? v' q = .ok (some c')) := by
  induction p generalizing v v' q with
  | nil => exact .inl (by rw [← Except.ok.inj h])
  | cons key rest ih =>
    cases q with
    | nil => exact .inr (.inr ⟨key :: rest, v, v', List.cons_ne_nil _ _, rfl, h, rfl⟩)
    | cons l q =>
      by_cases hrest : rest = []
      · subst hrest
        cases v with
        | dict d =>
          obtain rfl : .dict (Document.eraseField d key) = v' := Except.ok.inj h
          rw [get?_dict_cons, get?_dict_cons]
          by_cases hl : l = key
          · subst hl
            rw [Document.field?_eraseField_self]
            exact .inr (.inl rfl)
          · rw [Document.field?_eraseField_of_ne hl]
            exact .inl rfl
        | _ => exact .inl (by rw [← Except.ok.inj h])
      · rcases erase_cons_eq_ok hrest h with ⟨-, rfl⟩ | ⟨d, b, below, rfl, hb, hbelow, rfl⟩ |
          ⟨items, i, b, below, rfl, hi, hb, hbelow, rfl⟩
        · exact .inl rfl
        · rw [get?_dict_cons, get?_dict_cons]
          by_cases hl : l = key
          · subst hl
            rw [Document.field?_putField_self, hb]
            exact ih hbelow q
          · rw [Document.field?_putField_of_ne hl]
            exact .inl rfl
        · by_cases hl : position? l = some i
          · rw [get?_list_cons hl, get?_list_cons hl, hb,
              List.getElem?_set_self (lt_length_of_getElem? hb)]
            exact ih hbelow q
          · left
            refine get?_list_congr (fun j hj => List.getElem?_set_ne ?_) q
            rintro rfl
            exact hl hj

/-- What leads somewhere leads somewhere without its last segment. -/
theorem exists_get?_dropLast (h : get? v q = .ok (some c)) :
    ∃ b, get? v q.dropLast = .ok (some b) := by
  induction q generalizing v with
  | nil => exact ⟨v, rfl⟩
  | cons l q ih =>
    by_cases hq : q = []
    · subst hq
      exact ⟨v, rfl⟩
    · rw [List.dropLast_cons_of_ne_nil hq]
      unfold get? at h ⊢
      obtain ⟨found, hfound, h⟩ := Outcome.bind_eq_ok.1 h
      rw [hfound]
      cases found with
      | none => cases h
      | some b => exact ih h

/-- Erasing below a segment makes no dictionary of anything else, nor anything else of one. -/
theorem isDict_erase (h : erase p v = .ok v') : v'.isDict = v.isDict := by
  cases p with
  | nil => rw [← Except.ok.inj h]
  | cons key rest =>
    by_cases hrest : rest = []
    · subst hrest
      cases v with
      | dict d =>
        obtain rfl : .dict (Document.eraseField d key) = v' := Except.ok.inj h
        rfl
      | _ => rw [← Except.ok.inj h]
    · rcases erase_cons_eq_ok hrest h with ⟨-, rfl⟩ | ⟨_, _, _, rfl, -, -, rfl⟩ |
        ⟨_, _, _, _, rfl, -, -, -, rfl⟩ <;> rfl

/-- A value that is still there after something was erased has a key if it had one before. -/
theorem keyed_erase_iff (h : erase p v = .ok v') (hc : get? v' q = .ok (some c)) :
    Keyed v' q ↔ Keyed v q := by
  unfold Keyed
  rcases get?_erase_cases h q.dropLast with hsame | hnone | ⟨rest, b, b', -, hb, herase, hb'⟩
  · rw [hsame]
  · obtain ⟨b, hb⟩ := exists_get?_dropLast hc
    cases hnone.symm.trans hb
  · have hdict := isDict_erase herase
    simp only [hb, hb', Except.ok.injEq, Option.some.injEq, exists_eq_left', hdict]

/-- Only dictionaries and lists change when something below them is erased. -/
theorem erase_eq_or_container (hp : p ≠ []) (h : erase p v = .ok v') :
    v' = v ∨ v'.isDict = true ∨ v'.isList = true := by
  obtain ⟨key, rest, rfl⟩ := List.exists_cons_of_ne_nil hp
  by_cases hrest : rest = []
  · subst hrest
    cases v with
    | dict d => exact .inr (.inl (isDict_erase h))
    | _ => exact .inl (Except.ok.inj h).symm
  · rcases erase_cons_eq_ok hrest h with ⟨-, rfl⟩ | ⟨_, _, _, -, -, -, rfl⟩ |
      ⟨_, _, _, _, -, -, -, -, rfl⟩
    · exact .inl rfl
    · exact .inr (.inl rfl)
    · exact .inr (.inr rfl)

end DocumentMapper.Path

namespace DocumentMapper.Document

variable {d d' : Document} {column : String}

/-- A document stays a document when one of its columns is erased. -/
theorem eraseColumn_eq_ok :
    d.eraseColumn column = .ok d' ↔
      Path.erase (Path.ofText column) (.dict d) = .ok (.dict d') := by
  unfold eraseColumn
  rw [Outcome.bind_eq_ok]
  constructor
  · rintro ⟨whole, herase, he⟩
    have hdict := Path.isDict_erase herase
    cases whole with
    | dict e =>
      cases he
      exact herase
    | _ => cases hdict
  · intro herase
    exact ⟨.dict d', herase, rfl⟩

end DocumentMapper.Document
