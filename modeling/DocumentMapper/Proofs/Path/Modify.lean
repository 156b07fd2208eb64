import DocumentMapper.Proofs.Path.Apart
import Mathlib.Data.List.Basic

/-!
# Changing what stands at a path

A function is applied to what a path leads to, and nothing happens where the path leads nowhere.
Two changes with one function commute where the paths part, and are changes of the same part as far
as the paths agree; that two spellings of one position are the same to a list makes no difference.
So if a change at the whole value makes an earlier one of a part superfluous, and the other way
round, then every change makes an earlier one at the same path superfluous, whatever was changed in
between.
-/

namespace DocumentMapper

namespace Document

/-- A function applied to what stands under a text key. -/
def modifyField (f : Value → Value) (name : String) : Document → Document
  | [] => []
  | (k, v) :: rest =>
    if k.same (.text name) then (k, f v) :: rest else (k, v) :: modifyField f name rest

variable {f g : Value → Value} {name other : String} {d : Document}

theorem modifyField_eq (f : Value → Value) (name : String) (d : Document) :
    d.modifyField f name =
      match d.field? name with
      | some v => d.putField name (f v)
      | none => d := by
  induction d with
  | nil => rfl
  | cons e rest ih =>
    obtain ⟨k, v⟩ := e
    by_cases hk : k.same (.text name) = true
    · obtain rfl := Value.same_text.1 hk
      rw [field?_cons_self]
      simp [modifyField, putField, put, hk]
    · have hne : k ≠ .text name := fun h => hk (Value.same_text.2 h)
      rw [field?_cons_of_ne hne, modifyField, if_neg hk, ih]
      cases field? rest name with
      | none => rfl
      | some v' => simp [putField, put, hk]

theorem modifyField_modifyField (f g : Value → Value) (name : String) (d : Document) :
    (d.modifyField g name).modifyField f name = d.modifyField (f ∘ g) name := by
  induction d with
  | nil => rfl
  | cons e rest ih =>
    obtain ⟨k, v⟩ := e
    by_cases hk : k.same (.text name) = true <;> simp [modifyField, hk, ih]

theorem modifyField_comm (h : name ≠ other) (d : Document) :
    (d.modifyField g other).modifyField f name = (d.modifyField f name).modifyField g other := by
  induction d with
  | nil => rfl
  | cons e rest ih =>
    obtain ⟨k, v⟩ := e
    by_cases hk : k.same (.text name) = true
    · have hother : k.same (.text other) = false := by
        rw [Value.same_text.1 hk]
        exact Value.same_text_eq_false fun he => h (Value.text.inj he)
      simp [modifyField, hk, hother]
    · by_cases hother : k.same (.text other) = true <;> simp [modifyField, hk, hother, ih]

end Document

namespace Path

variable {f g : Value → Value} {v : Value} {key l : String} {p q : Path}

/-- A function applied to what one segment leads to. -/
def modifyChild (f : Value → Value) (key : String) : Value → Value
  | .dict d => .dict (Document.modifyField f key d)
  | .list items =>
    match position? key with
    | some i => .list (items.modify i f)
    | none => .list items
  | v => v

/-- A function applied to what a path leads to. -/
def modify (f : Value → Value) : Path → Value → Value
  | [], v => f v
  | key :: rest, v => modifyChild (modify f rest) key v

/-- Two segments that name the same part of a value. -/
def SamePart (key l : String) : Value → Prop
  | .dict _ => key = l
  | .list _ => position? key = position? l
  | _ => True

theorem modifyChild_modifyChild (f g : Value → Value) (key : String) (v : Value) :
    modifyChild f key (modifyChild g key v) = modifyChild (f ∘ g) key v := by
  cases v with
  | dict d => simp only [modifyChild, Document.modifyField_modifyField]
  | list items =>
    simp only [modifyChild]
    cases position? key with
    | none => rfl
    | some i => simp [List.modify_modify_eq]
  | _ => rfl

@[simp] theorem samePart_modifyChild (f : Value → Value) (m : String) :
    SamePart key l (modifyChild f m v) ↔ SamePart key l v := by
  cases v with
  | list items =>
    simp only [modifyChild]
    cases position? m <;> rfl
  | _ => rfl

theorem modifyChild_of_samePart (h : SamePart key l v) :
    modifyChild f l v = modifyChild f key v := by
  cases v with
  | dict d =>
    obtain rfl : key = l := h
    rfl
  | list items =>
    have hposition : position? key = position? l := h
    simp only [modifyChild, hposition]
  | _ => rfl

theorem modifyChild_comm (h : ¬ SamePart key l v) :
    modifyChild f key (modifyChild g l v) = modifyChild g l (modifyChild f key v) := by
  cases v with
  | dict d =>
    have hne : key ≠ l := h
    simp only [modifyChild, Document.modifyField_comm hne]
  | list items =>
    have hne : position? key ≠ position? l := h
    simp only [modifyChild]
    cases hkey : position? key with
    | none => cases position? l <;> simp
    | some i =>
      cases hl : position? l with
      | none => simp
      | some j =>
        have hij : j ≠ i := fun hij => hne (by rw [hkey, hl, hij])
        simp [List.modify_modify_ne g f items hij]
  | _ => exact absurd trivial h

theorem modify_modify (f g : Value → Value) (p : Path) (v : Value) :
    modify f p (modify g p v) = modify (f ∘ g) p v := by
  induction p generalizing v with
  | nil => rfl
  | cons key rest ih =>
    have hrest : modify f rest ∘ modify g rest = modify (f ∘ g) rest := funext ih
    rw [modify, modify, modify, modifyChild_modifyChild, hrest]

/-! ## Reading and writing -/

theorem modifyChild_dict (f : Value → Value) (key : String) (d : Document) :
    modifyChild f key (.dict d) =
      match d.field? key with
      | some c => .dict (d.putField key (f c))
      | none => .dict d := by
  rw [modifyChild, Document.modifyField_eq]
  cases d.field? key <;> rfl

theorem modifyChild_list {items : List Value} {i : Nat} {item : Value} (hi : position? key = some i)
    (hitem : items[i]? = some item) (f : Value → Value) :
    modifyChild f key (.list items) = .list (items.set i (f item)) := by
  simp [modifyChild, hi, List.modify_eq_set_getElem?, hitem]

/-- A function that leaves alone what a path leads to changes nothing there, and neither does any
function where the path leads nowhere or cannot be read. -/
theorem modify_of_fixed (h : ∀ c, get? v p = .ok (some c) → f c = c) : modify f p v = v := by
  induction p generalizing v with
  | nil => exact h v rfl
  | cons key rest ih =>
    cases v with
    | dict d =>
      rw [modify, modifyChild_dict]
      cases hd : Document.field? d key with
      | none => rfl
      | some b =>
        have hb : modify f rest b = b := ih fun c hc => h c (by rw [get?_dict_cons, hd]; exact hc)
        simp only [hb, Document.putField_of_field? hd]
    | list items =>
      rw [modify]
      cases hi : position? key with
      | none => simp [modifyChild, hi]
      | some i =>
        cases hitem : items[i]? with
        | none => simp [modifyChild, hi, List.modify_eq_set_getElem?, hitem]
        | some item =>
          have hb : modify f rest item = item :=
            ih fun c hc => h c (by rw [get?_list_cons hi, hitem]; exact hc)
          rw [modifyChild_list hi hitem, hb]
          obtain ⟨hlt, rfl⟩ := List.getElem?_eq_some_iff.1 hitem
          rw [List.set_getElem_self]
    | _ => rfl

/-- Writing in the place of what stands at a path is a change of that. -/
theorem put_of_get? {c : Value} (h : get? v p = .ok (some c)) (f : Value → Value) :
    put (f c) p v = .ok (modify f p v) := by
  induction p generalizing v with
  | nil =>
    cases h
    rfl
  | cons key rest ih =>
    cases v with
    | dict d =>
      rw [get?_dict_cons] at h
      rw [put, modify, modifyChild_dict]
      cases hd : Document.field? d key with
      | none =>
        rw [hd] at h
        cases h
      | some b =>
        rw [hd] at h
        have hbelow : put (f c) rest (container (some b)) = .ok (modify f rest b) := by
          by_cases hrest : rest = []
          · subst hrest
            cases h
            rfl
          · rw [container_of_get? hrest h]
            exact ih h
        simp [hbelow, bind, Except.bind]
    | list items =>
      obtain ⟨found, hchild, hbelow⟩ := Outcome.bind_eq_ok.1 h
      cases found with
      | none => cases hbelow
      | some b =>
        obtain ⟨i, hi, hitem⟩ := child?_list_eq_some hchild
        obtain ⟨hdigits, hposition⟩ := position?_eq_some.1 hi
        rw [put, modify, modifyChild_list hi hitem]
        simp [hdigits, hposition, hitem, ih hbelow, bind, Except.bind]
    | _ => cases h

/-- Writing what stands at a path changes nothing. -/
theorem put_of_get?_self {c : Value} (h : get? v p = .ok (some c)) : put c p v = .ok v := by
  have hfixed : modify (fun _ => c) p v = v :=
    modify_of_fixed fun b hb => Option.some.inj (Except.ok.inj (h.symm.trans hb))
  rw [put_of_get? h fun _ => c, hfixed]

/-- What a path leads to after it was changed. -/
theorem get?_modify {c : Value} (h : get? v p = .ok (some c)) (f : Value → Value) :
    get? (modify f p v) p = .ok (some (f c)) :=
  get?_put_self (put_of_get? h f)

/-! ## Documents -/

theorem dict_entries_modify {p : Path} (h : p ≠ []) (f : Value → Value) (d : Document) :
    .dict (modify f p (.dict d)).entries = modify f p (.dict d) := by
  obtain ⟨key, rest, rfl⟩ := List.exists_cons_of_ne_nil h
  rfl

theorem isTruthy_modifyChild (f : Value → Value) (key : String) (v : Value) :
    (modifyChild f key v).isTruthy = v.isTruthy := by
  cases v with
  | dict d =>
    cases d with
    | nil => rfl
    | cons e rest =>
      simp only [modifyChild, Document.modifyField]
      split <;> rfl
  | list items =>
    simp only [modifyChild]
    cases position? key with
    | none => rfl
    | some i => cases items <;> cases i <;> rfl
  | _ => rfl

/-- Whether there is anything under a key does not change with what is done elsewhere or to a part
of it. -/
theorem isTruthy_fieldOrNull_modify {column name : String} (h : column ≠ name)
    (f : Value → Value) (d : Document) :
    ((modify f (ofText column) (.dict d)).entries.fieldOrNull name).isTruthy =
      (d.fieldOrNull name).isTruthy := by
  obtain ⟨key, rest, hpath⟩ := List.exists_cons_of_ne_nil (ofText_ne_nil column)
  rw [hpath, modify, modifyChild_dict]
  cases hd : Document.field? d key with
  | none => rfl
  | some old =>
    show ((d.putField key _).fieldOrNull name).isTruthy = _
    by_cases hkey : key = name
    · subst hkey
      cases rest with
      | nil => exact absurd (ofText_eq_singleton hpath).symm h
      | cons l rest =>
        rw [Document.fieldOrNull_putField_self, Document.fieldOrNull, hd, modify]
        exact isTruthy_modifyChild _ _ _
    · rw [Document.fieldOrNull_putField_of_ne (Ne.symm hkey)]

/-! ## Paths that can be read -/

/-- Whether every segment that passes the digit test names a position. -/
def Legible (p : Path) : Prop :=
  ∀ key ∈ p, Text.isDigits key = true → ∃ i, position? key = some i

theorem Legible.exists_get? (h : Legible p) (v : Value) : ∃ found, get? v p = .ok found := by
  induction p generalizing v with
  | nil => exact ⟨some v, rfl⟩
  | cons key rest ih =>
    obtain ⟨hkey, hrest⟩ := List.forall_mem_cons.1 h
    have hchild : ∃ found, child? v key = .ok found := by
      cases v with
      | dict d => exact ⟨_, rfl⟩
      | list items =>
        rw [child?]
        split
        · next hdigits =>
          obtain ⟨i, hi⟩ := hkey hdigits
          exact ⟨items[i]?, by rw [(position?_eq_some.1 hi).2]; rfl⟩
        · exact ⟨none, rfl⟩
      | _ => exact ⟨none, rfl⟩
    obtain ⟨found, hfound⟩ := hchild
    cases found with
    | none => exact ⟨none, by rw [get?, hfound]; rfl⟩
    | some c =>
      obtain ⟨below, hbelow⟩ := ih hrest c
      exact ⟨below, by rw [get?, hfound]; exact hbelow⟩

/-! ## Changes that make others superfluous -/

/-- A function that may be applied to a whole before or after it is applied to a part, and need not
be applied before it is applied once more. -/
structure Absorbing (f : Value → Value) : Prop where
  twice : ∀ v, f (f v) = f v
  whole : ∀ q v, f (modify f q (f v)) = f (modify f q v)
  part : ∀ q v, modify f q (f (modify f q v)) = modify f q (f v)

namespace Absorbing

variable (h : Absorbing f)

include h

theorem modify_self (p : Path) : modify f p ∘ modify f p = modify f p := by
  have hf : f ∘ f = f := funext h.twice
  funext v
  rw [Function.comp_apply, modify_modify, hf]

/-- A change makes an earlier one at the same path superfluous. -/
theorem modify_absorb (p q : Path) (v : Value) :
    modify f p (modify f q (modify f p v)) = modify f p (modify f q v) := by
  induction p generalizing q v with
  | nil => exact h.whole q v
  | cons key p ih =>
    cases q with
    | nil => exact h.part (key :: p) v
    | cons l q =>
      simp only [modify]
      by_cases hsame : SamePart key l v
      · have hinner : (modify f p ∘ modify f q) ∘ modify f p = modify f p ∘ modify f q :=
          funext fun c => ih q c
        have hsame' : SamePart key l (modifyChild (modify f p) key v) :=
          (samePart_modifyChild _ _).2 hsame
        rw [modifyChild_of_samePart hsame', modifyChild_of_samePart hsame, modifyChild_modifyChild,
          modifyChild_modifyChild, modifyChild_modifyChild, hinner]
      · have hother : ¬ SamePart key l (modifyChild (modify f p) key v) :=
          fun hs => hsame ((samePart_modifyChild _ _).1 hs)
        rw [modifyChild_comm hother, modifyChild_modifyChild, h.modify_self, modifyChild_comm hsame]

end Absorbing

/-- A function applied at several paths in turn. -/
def modifyAll (f : Value → Value) (paths : List Path) (v : Value) : Value :=
  paths.foldl (fun v p => modify f p v) v

namespace Absorbing

variable {paths : List Path} (h : Absorbing f)

include h

/-- What was changed at one of the paths before makes no difference. -/
theorem modifyAll_modify (hp : p ∈ paths) (v : Value) :
    modifyAll f paths (modify f p v) = modifyAll f paths v := by
  induction paths generalizing v with
  | nil => cases hp
  | cons q rest ih =>
    show modifyAll f rest (modify f q (modify f p v)) = modifyAll f rest (modify f q v)
    rcases List.mem_cons.1 hp with rfl | hrest
    · have hself := congrFun (h.modify_self p) v
      rw [Function.comp_apply] at hself
      rw [hself]
    · -- The rest has a change at `p` itself, so there may be one between `q` and the rest as well.
      rw [← ih hrest, h.modify_absorb, ih hrest]

/-- Changes at several paths make no difference the second time. -/
theorem modifyAll_modifyAll (v : Value) :
    modifyAll f paths (modifyAll f paths v) = modifyAll f paths v := by
  have hsub (first : List Path) (hfirst : first ⊆ paths) :
      modifyAll f paths (modifyAll f first v) = modifyAll f paths v := by
    induction first generalizing v with
    | nil => rfl
    | cons q rest ih =>
      obtain ⟨hq, hrest⟩ := List.cons_subset.1 hfirst
      show modifyAll f paths (modifyAll f rest (modify f q v)) = _
      rw [ih _ hrest, h.modifyAll_modify hq]
  exact hsub paths (List.Subset.refl paths)

end Absorbing

end Path

end DocumentMapper
