import DocumentMapper.Model.EmbeddedList
import DocumentMapper.Proofs.Path.Erase
import DocumentMapper.Proofs.Value.Moments

/-!
# Moments and paths

Reading a path gives a part of a value, writing puts a new part into it and erasing takes one out.
So what holds of all moments of a document and of what is written to it holds of the document
afterwards; this goes for columns and for embedded lists.
-/

namespace DocumentMapper

open Calendar Outcome

variable {reach : Reach} {p : Moment → Prop} {v w new : Value} {d d' : Document}
  {key column : String}
  {path : Path}

theorem Value.all_of_field {name : String} (hv : v.All reach p) (h : v.field name = .ok w) :
    w.All reach p := by
  unfold field at h
  split at h
  · rename_i entries
    cases hfound : Document.field? entries name with
    | none =>
      rw [hfound] at h
      cases h
    | some found =>
      rw [hfound] at h
      cases h
      exact (all_dict.1 hv).field? hfound
  all_goals cases h

namespace Path

theorem all_of_child? (hv : v.All reach p) (h : child? v key = .ok (some w)) : w.All reach p := by
  unfold child? at h
  split at h
  · exact (Value.all_dict.1 hv).field? (Except.ok.inj h)
  · split at h
    · obtain ⟨i, -, h⟩ := bind_eq_ok.1 h
      exact Value.all_list.1 hv w (List.mem_of_getElem? (Except.ok.inj h))
    · cases h
  · cases h

theorem all_of_get? (hv : v.All reach p) (h : get? v path = .ok (some w)) : w.All reach p := by
  induction path generalizing v with
  | nil =>
    unfold get? at h
    cases h
    exact hv
  | cons key rest ih =>
    unfold get? at h
    obtain ⟨found, hchild, h⟩ := bind_eq_ok.1 h
    cases found with
    | none => cases h
    | some c => exact ih (all_of_child? hv hchild) h

theorem all_of_getD {fallback : Value} (hv : v.All reach p) (hfallback : fallback.All reach p)
    (h : getD v path fallback = .ok w) : w.All reach p := by
  unfold getD at h
  obtain ⟨found, hget, h⟩ := bind_eq_ok.1 h
  cases h
  cases found with
  | none => exact hfallback
  | some c => exact all_of_get? hv hget

theorem all_container {old : Option Value} (hold : ∀ v ∈ old, v.All reach p) :
    (container old).All reach p := by
  unfold container
  split
  · exact hold _ rfl
  · exact hold _ rfl
  · exact Value.all_dict.2 Document.all_nil

theorem all_list_set {items : List Value} (hitems : (Value.list items).All reach p)
    (hnew : new.All reach p) (i : Nat) : (Value.list (items.set i new)).All reach p := by
  refine Value.all_list.2 fun v hv => ?_
  rcases List.mem_or_eq_of_mem_set hv with hv | rfl
  · exact Value.all_list.1 hitems v hv
  · exact hnew

theorem all_of_put (hnew : new.All reach p) (hv : v.All reach p) (h : put new path v = .ok w) :
    w.All reach p := by
  induction path generalizing v w with
  | nil =>
    unfold put at h
    cases h
    exact hnew
  | cons key rest ih =>
    rcases put_cons_eq_ok h with ⟨d, below, rfl, hbelow, rfl⟩ |
      ⟨items, i, item, below, rfl, -, hitem, hbelow, rfl⟩
    · rw [Value.all_dict] at hv ⊢
      exact hv.putField (ih (all_container fun _ hold => hv.field? hold) hbelow) key
    · have hold := Value.all_list.1 hv item (List.mem_of_getElem? hitem)
      exact all_list_set hv (ih hold hbelow) i

theorem all_of_erase (hv : v.All reach p) (h : erase path v = .ok w) : w.All reach p := by
  induction path generalizing v w with
  | nil =>
    unfold erase at h
    cases h
    exact hv
  | cons key rest ih =>
    by_cases hrest : rest = []
    · subst hrest
      unfold erase at h
      split at h
      · cases h
        exact Value.all_dict.2 ((Value.all_dict.1 hv).eraseField key)
      · cases h
        exact hv
    · rcases erase_cons_eq_ok hrest h with ⟨-, rfl⟩ | ⟨d, c, below, rfl, hc, hbelow, rfl⟩ |
        ⟨items, i, c, below, rfl, -, hc, hbelow, rfl⟩
      · exact hv
      · rw [Value.all_dict] at hv ⊢
        exact hv.putField (ih (hv.field? hc) hbelow) key
      · have hold := Value.all_list.1 hv c (List.mem_of_getElem? hc)
        exact all_list_set hv (ih hold hbelow) i

end Path

/-! ## Columns -/

namespace Document.All

theorem columnD {fallback : Value} (hd : d.All reach p) (hfallback : fallback.All reach p)
    (h : d.columnD column fallback = .ok w) : w.All reach p :=
  Path.all_of_getD (Value.all_dict.2 hd) hfallback h

theorem column? (hd : d.All reach p) (h : d.column? column = .ok (some w)) : w.All reach p :=
  Path.all_of_get? (Value.all_dict.2 hd) h

theorem putColumn (hd : d.All reach p) (hnew : new.All reach p)
    (h : d.putColumn column new = .ok d') : d'.All reach p :=
  Value.all_dict.1 (Path.all_of_put hnew (Value.all_dict.2 hd) (putColumn_eq_ok.1 h))

theorem eraseColumn (hd : d.All reach p) (h : d.eraseColumn column = .ok d') : d'.All reach p :=
  Value.all_dict.1 (Path.all_of_erase (Value.all_dict.2 hd) (eraseColumn_eq_ok.1 h))

/-- What every step on a document keeps is kept by steps in a row. -/
theorem foldlM {α : Type} {step : Document → α → Except Error Document}
    (hstep : ∀ d a d', d.All reach p → step d a = .ok d' → d'.All reach p) {as : List α}
    (hd : d.All reach p) (h : as.foldlM step d = .ok d') : d'.All reach p := by
  induction as generalizing d with
  | nil => exact foldlM_nil_eq_ok.1 h ▸ hd
  | cons a rest ih =>
    obtain ⟨d₁, hfirst, h⟩ := foldlM_cons_eq_ok.1 h
    exact ih (hstep d a d₁ hd hfirst) h

theorem without {columns : List String} (hd : d.All reach p) (h : d.without columns = .ok d') :
    d'.All reach p :=
  hd.foldlM (fun _ _ _ => eraseColumn) h

theorem only {columns : List String} (hd : d.All reach p) (h : d.only columns = .ok d') :
    d'.All reach p := by
  refine Document.all_nil.foldlM (fun result column result' hresult hcopy => ?_) h
  unfold copyColumn at hcopy
  obtain ⟨found, hfound, hcopy⟩ := bind_eq_ok.1 hcopy
  cases found with
  | none =>
    cases hcopy
    exact hresult
  | some v => exact hresult.putColumn (hd.column? hfound) hcopy

end Document.All

/-! ## Embedded lists -/

namespace EmbeddedList

theorem all_of_current (hd : d.All reach p) (h : current d column = .ok w) : w.All reach p := by
  obtain ⟨v, hv, h⟩ := bind_eq_ok.1 h
  cases h
  exact Value.all_orElse (hd.columnD Value.all_null hv) (Value.all_list.2 (List.forall_mem_nil _))

theorem all_of_append (hnew : new.All reach p) (hv : v.All reach p) (h : append new v = .ok w) :
    w.All reach p := by
  unfold append at h
  split at h
  · cases h
    exact Value.all_list.2
      (List.forall_mem_append.2 ⟨Value.all_list.1 hv, List.forall_mem_singleton.2 hnew⟩)
  · cases h

theorem all_of_replaceAt {i : Nat} (hnew : new.All reach p) (hv : v.All reach p)
    (h : replaceAt new i v = .ok w) : w.All reach p := by
  unfold replaceAt at h
  split at h
  · cases h
    exact Path.all_list_set hv hnew i
  · cases h
    exact Value.all_dict.2 ((Value.all_dict.1 hv).put hnew _)
  · cases h

theorem all_of_associate (hnew : new.All reach p) (hd : d.All reach p)
    (h : associate d column new = .ok d') : d'.All reach p := by
  unfold associate at h
  split at h
  · cases h
    exact hd
  · obtain ⟨items, hitems, h⟩ := bind_eq_ok.1 h
    obtain ⟨changed, hchanged, h⟩ := bind_eq_ok.1 h
    exact hd.putColumn (all_of_append hnew (all_of_current hd hitems) hchanged) h

theorem all_of_reassociate (hnew : new.All reach p) (hd : d.All reach p)
    (h : reassociate d column new = .ok d') : d'.All reach p := by
  unfold reassociate at h
  split at h
  · cases h
    exact hd
  · obtain ⟨items, hitems, h⟩ := bind_eq_ok.1 h
    obtain ⟨parts, -, h⟩ := bind_eq_ok.1 h
    have hcurrent := all_of_current hd hitems
    split at h
    · obtain ⟨changed, hchanged, h⟩ := bind_eq_ok.1 h
      exact hd.putColumn (all_of_replaceAt hnew hcurrent hchanged) h
    · obtain ⟨changed, hchanged, h⟩ := bind_eq_ok.1 h
      exact hd.putColumn (all_of_append hnew hcurrent hchanged) h

theorem all_of_disassociate (hd : d.All reach p) (h : disassociate d column v = .ok d') :
    d'.All reach p := by
  unfold disassociate at h
  obtain ⟨items, hitems, h⟩ := bind_eq_ok.1 h
  have hcurrent := hd.columnD Value.all_null hitems
  split at h
  · cases h
    exact hd
  · refine hd.putColumn (Value.all_list.2 fun w hw => Value.all_list.1 hcurrent w ?_) h
    split at hw
    · exact List.mem_of_mem_eraseIdx hw
    · exact hw
  · cases h
    exact hd

end EmbeddedList

end DocumentMapper
