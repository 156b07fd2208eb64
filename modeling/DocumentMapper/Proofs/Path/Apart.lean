import DocumentMapper.Proofs.Document.Fields
import DocumentMapper.Proofs.Path.Segments

/-!
# Paths that lie apart

What a path reads after another one was written. Two paths lie apart if they first differ in
segments that name different places of every container: a dictionary tells any two segments apart,
a list only those that are not two spellings of one position. Writing at a path leaves alone what
lies apart from it, and what was written is read back.
-/

namespace DocumentMapper.Path

variable {v v' new : Value} {p q rest : Path} {key : String}

/-- The position of a list that a segment names, if it names one. -/
def position? (key : String) : Option Nat :=
  if Text.isDigits key then (position key).toOption else none

/-- Whether two segments name different places, in a dictionary as well as in a list. -/
def parted (k l : String) : Bool :=
  k != l && (position? k).all fun i => position? l != some i

/-- Whether two paths lead to places neither of which lies inside the other. -/
def apart : Path → Path → Bool
  | k :: p, l :: q => if k = l then apart p q else parted k l
  | _, _ => false

theorem position?_eq_some {i : Nat} :
    position? key = some i ↔ Text.isDigits key = true ∧ position key = .ok i := by
  unfold position?
  cases hd : Text.isDigits key
  · simp
  · cases position key <;> simp [Except.toOption]

theorem apart_cons_self : apart (key :: p) (key :: q) = apart p q := by
  simp [apart]

theorem apart_cons_of_ne {k l : String} (h : k ≠ l) : apart (k :: p) (l :: q) = parted k l := by
  simp [apart, h]

theorem ne_nil_of_apart (h : apart p q = true) : q ≠ [] := by
  rintro rfl
  cases p <;> simp [apart] at h

theorem position?_ne_of_parted {k l : String} {i : Nat} (h : parted k l = true)
    (hk : position? k = some i) : position? l ≠ some i := by
  rw [parted, Bool.and_eq_true, hk] at h
  simpa using h.2

/-! ## Reading -/

theorem child?_list_of_position? {items : List Value} {i : Nat} (h : position? key = some i) :
    child? (.list items) key = .ok items[i]? := by
  obtain ⟨hdigits, hposition⟩ := position?_eq_some.1 h
  simp [child?, hdigits, hposition, bind, Except.bind]

theorem get?_list_cons {items : List Value} {i : Nat} (h : position? key = some i) (rest : Path) :
    get? (.list items) (key :: rest) =
      match items[i]? with
      | some c => get? c rest
      | none => .ok none := by
  rw [get?, child?_list_of_position? h]
  cases items[i]? <;> rfl

theorem child?_list_eq_some {items : List Value} {c : Value}
    (h : child? (.list items) key = .ok (some c)) :
    ∃ i, position? key = some i ∧ items[i]? = some c := by
  rw [child?] at h
  split at h
  · next hd =>
    obtain ⟨i, hi, h⟩ := Outcome.bind_eq_ok.1 h
    exact ⟨i, position?_eq_some.2 ⟨hd, hi⟩, Except.ok.inj h⟩
  · cases h

theorem child?_list_congr {items items' : List Value} {l : String}
    (h : ∀ j, position? l = some j → items'[j]? = items[j]?) :
    child? (.list items') l = child? (.list items) l := by
  cases hl : position? l with
  | some j => rw [child?_list_of_position? hl, child?_list_of_position? hl, h j hl]
  | none =>
    cases hd : Text.isDigits l with
    | false => simp [child?, hd]
    | true =>
      cases hp : position l with
      | error e => simp [child?, hd, hp, bind, Except.bind]
      | ok j => simp [position?, hd, hp, Except.toOption] at hl

/-- Lists with the same element at the position that a segment names read alike below it. -/
theorem get?_list_congr {items items' : List Value} {l : String}
    (h : ∀ j, position? l = some j → items'[j]? = items[j]?) (rest : Path) :
    get? (.list items') (l :: rest) = get? (.list items) (l :: rest) := by
  rw [get?, get?, child?_list_congr h]

/-- Lists read alike below their elements if each element reads as another one does. -/
theorem get?_list_map {f : Value → Value} (h : ∀ e, get? (f e) rest = get? e rest)
    (items : List Value) (l : String) :
    get? (.list (items.map f)) (l :: rest) = get? (.list items) (l :: rest) := by
  cases hl : position? l with
  | some j =>
    rw [get?_list_cons hl, get?_list_cons hl, List.getElem?_map]
    cases items[j]? with
    | none => rfl
    | some e => exact h e
  | none =>
    refine get?_list_congr (fun j hj => ?_) rest
    cases hl.symm.trans hj

/-- Below a value that is neither a dictionary nor a list there is nothing. -/
theorem get?_container (c : Option Value) (h : rest ≠ []) :
    get? (container c) rest =
      match c with
      | some c => get? c rest
      | none => .ok none := by
  obtain ⟨key, rest, rfl⟩ := List.exists_cons_of_ne_nil h
  rcases c with _ | v
  · rfl
  · cases v <;> rfl

/-! ## Writing -/

/-- The two ways in which writing below a segment succeeds. -/
theorem put_cons_eq_ok (h : put new (key :: rest) v = .ok v') :
    (∃ (d : Document) (below : Value), v = .dict d ∧
      put new rest (container (d.field? key)) = .ok below ∧ v' = .dict (d.putField key below)) ∨
    (∃ items i item below, v = .list items ∧ position? key = some i ∧ items[i]? = some item ∧
      put new rest item = .ok below ∧ v' = .list (items.set i below)) := by
  unfold put at h
  split at h
  · next d =>
    obtain ⟨below, hb, h⟩ := Outcome.bind_eq_ok.1 h
    exact .inl ⟨d, below, rfl, hb, (Except.ok.inj h).symm⟩
  · next items =>
    split at h
    · next hd =>
      obtain ⟨i, hi, h⟩ := Outcome.bind_eq_ok.1 h
      split at h
      · next item hitem =>
        obtain ⟨below, hb, h⟩ := Outcome.bind_eq_ok.1 h
        exact .inr ⟨items, i, item, below, rfl, position?_eq_some.2 ⟨hd, hi⟩, hitem, hb,
          (Except.ok.inj h).symm⟩
      · cases h
    · cases h
  · cases h

theorem lt_length_of_getElem? {items : List Value} {i : Nat} {item : Value}
    (h : items[i]? = some item) : i < items.length :=
  (List.getElem?_eq_some_iff.1 h).1

/-- Below what was written its parts are read. -/
theorem get?_put_append (h : put new p v = .ok v') (q : Path) : get? v' (p ++ q) = get? new q := by
  induction p generalizing v v' with
  | nil =>
    obtain rfl : new = v' := Except.ok.inj h
    rfl
  | cons key rest ih =>
    rw [List.cons_append]
    rcases put_cons_eq_ok h with
      ⟨d, below, rfl, hb, rfl⟩ | ⟨items, i, item, below, rfl, hi, hitem, hb, rfl⟩
    · rw [get?_dict_cons, Document.field?_putField_self]
      exact ih hb
    · rw [get?_list_cons hi, List.getElem?_set_self (lt_length_of_getElem? hitem)]
      exact ih hb

/-- What was written is read back. -/
theorem get?_put_self (h : put new p v = .ok v') : get? v' p = .ok (some new) := by
  have hread := get?_put_append h []
  rwa [List.append_nil, get?] at hread

/-- Writing leaves alone what lies apart. -/
theorem get?_put_of_apart (hpq : apart p q = true) (h : put new p v = .ok v') :
    get? v' q = get? v q := by
  induction p generalizing v v' q with
  | nil => simp [apart] at hpq
  | cons key rest ih =>
    obtain ⟨l, q, rfl⟩ := List.exists_cons_of_ne_nil (ne_nil_of_apart hpq)
    by_cases hl : key = l
    · subst hl
      rw [apart_cons_self] at hpq
      rcases put_cons_eq_ok h with
        ⟨d, below, rfl, hb, rfl⟩ | ⟨items, i, item, below, rfl, hi, hitem, hb, rfl⟩
      · rw [get?_dict_cons, get?_dict_cons, Document.field?_putField_self]
        exact (ih hpq hb).trans (get?_container _ (ne_nil_of_apart hpq))
      · rw [get?_list_cons hi, get?_list_cons hi, hitem,
          List.getElem?_set_self (lt_length_of_getElem? hitem)]
        exact ih hpq hb
    · rw [apart_cons_of_ne hl] at hpq
      rcases put_cons_eq_ok h with
        ⟨d, below, rfl, hb, rfl⟩ | ⟨items, i, item, below, rfl, hi, hitem, hb, rfl⟩
      · rw [get?_dict_cons, get?_dict_cons, Document.field?_putField_of_ne (Ne.symm hl)]
      · refine get?_list_congr (fun j hj => List.getElem?_set_ne ?_) q
        rintro rfl
        exact position?_ne_of_parted hpq hi hj

/-- What has something below it is a dictionary or a list. -/
theorem container_of_get? {c old : Value} (hrest : rest ≠ []) (h : get? c rest = .ok (some old)) :
    container (some c) = c := by
  obtain ⟨key, rest, rfl⟩ := List.exists_cons_of_ne_nil hrest
  cases c with
  | dict => rfl
  | list => rfl
  | _ => cases h

/-- What any path reads after something was written in the place of an old value: the same as
before, a part of what was written, or what was written to further down. -/
theorem get?_put_cases {old : Value} (hold : get? v p = .ok (some old))
    (h : put new p v = .ok v') (q : Path) :
    get? v' q = get? v q ∨ (∃ rest, get? v' q = get? new rest) ∨
    (∃ rest c c', rest ≠ [] ∧ get? v q = .ok (some c) ∧ get? c rest = .ok (some old) ∧
      put new rest c = .ok c' ∧ get? v' q = .ok (some c')) := by
  induction p generalizing v v' q with
  | nil =>
    cases h
    exact .inr (.inl ⟨q, rfl⟩)
  | cons key rest ih =>
    cases q with
    | nil => exact .inr (.inr ⟨key :: rest, v, v', List.cons_ne_nil _ _, rfl, hold, h, rfl⟩)
    | cons l q =>
      rcases put_cons_eq_ok h with
        ⟨d, below, rfl, hb, rfl⟩ | ⟨items, i, item, below, rfl, hi, hitem, hb, rfl⟩
      · by_cases hl : key = l
        · subst hl
          rw [get?_dict_cons] at hold
          rw [get?_dict_cons, get?_dict_cons, Document.field?_putField_self]
          cases hc : d.field? key with
          | none =>
            rw [hc] at hold
            cases hold
          | some c =>
            rw [hc] at hold hb
            by_cases hrest : rest = []
            · subst hrest
              cases hb
              exact .inr (.inl ⟨q, rfl⟩)
            · rw [container_of_get? hrest hold] at hb
              exact ih hold hb q
        · left
          rw [get?_dict_cons, get?_dict_cons, Document.field?_putField_of_ne (Ne.symm hl)]
      · by_cases hl : position? l = some i
        · rw [get?_list_cons hi, hitem] at hold
          rw [get?_list_cons hl, get?_list_cons hl, hitem,
            List.getElem?_set_self (lt_length_of_getElem? hitem)]
          exact ih hold hb q
        · left
          refine get?_list_congr (fun j hj => List.getElem?_set_ne ?_) q
          rintro rfl
          exact hl hj

end DocumentMapper.Path

namespace DocumentMapper.Document

variable {d d' : Document} {column : String} {v : Value}

/-- A document stays a document when one of its columns is written to. -/
theorem putColumn_eq_ok :
    d.putColumn column v = .ok d' ↔ Path.put v (Path.ofText column) (.dict d) = .ok (.dict d') := by
  unfold putColumn
  rw [Outcome.bind_eq_ok]
  constructor
  · rintro ⟨whole, hput, he⟩
    obtain ⟨key, rest, hpath⟩ := List.exists_cons_of_ne_nil (Path.ofText_ne_nil column)
    rw [hpath] at hput ⊢
    rcases Path.put_cons_eq_ok hput with ⟨e, below, -, -, rfl⟩ | ⟨items, _, _, _, hd, -⟩
    · cases he
      exact hput
    · cases hd
  · intro hput
    exact ⟨.dict d', hput, rfl⟩

end DocumentMapper.Document
