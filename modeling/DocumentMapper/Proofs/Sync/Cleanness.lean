import DocumentMapper.Proofs.Model.Sample
import DocumentMapper.Proofs.Model.Saving
import DocumentMapper.Proofs.Sync.ReleaseColumn
import DocumentMapper.Proofs.Sync.Transition

/-!
# Whether copies are left behind

When a record is deleted no copy of it should be left in the documents that held one. The three
ways of taking copies out do not all see to that. A value that is no key of a dictionary is not
erased. Of a list column one element is taken out, the first with the identity of what the record
embeds, so that a copy stays if there is another one before it or if the record embeds something
without its identity. Only a field of the elements of a list is always left clean.
-/

namespace DocumentMapper.Sync

open EmbeddedList

variable {mode : Mode} {id v : Value} {embedded : Except Error Value} {d d' : Document}
  {column other top field : String} {items : List Value}

/-- Whether every copy in a list stands where an element is taken out. Beside a list there must be
none, and a field of elements may hold any. -/
def View.Releasable (id : Value) (embedded : Except Error Value) : View → Prop
  | .elements items => ∀ i v, items[i]? = some v → IsCopy id v → taken? embedded items = some i
  | .slots _ => True
  | .one found | .loose found | .bare _ found => Clean id found.toList

/-- Whether releasing takes out every copy in a column. A path must lead to a key. -/
def Releasable (mode : Mode) (id : Value) (embedded : Except Error Value) (d : Document)
    (column : String) : Prop :=
  match mode with
  | .single => Path.Keyed (.dict d) (Path.ofText column) ∨ Clean id (places .single d column)
  | .many => (view .many d column).Releasable id embedded

/-! ## One column -/

theorem Clean.releasable {w : View} (h : Clean id w.values) : w.Releasable id embedded := by
  cases w with
  | elements items => exact fun i v hi hcopy => absurd hcopy (h v (List.mem_of_getElem? hi))
  | slots slots => trivial
  | one found => exact h
  | loose found => exact h
  | bare found inside => exact h

theorem releaseColumn_single_clean_iff (hid : id ≠ .null)
    (h : releaseColumn .single id embedded d column = .ok d') :
    Clean id (places .single d' column) ↔ Releasable .single id embedded d column := by
  obtain ⟨found, hfound, ⟨hno, rfl⟩ | ⟨hcopied, herase⟩⟩ := releaseColumn_single h
  · have hclean : Clean id (places .single d' column) := by
      intro v hv hcopy
      cases hfound.symm.trans (mem_places_single.1 hv)
      exact absurd (hno.symm.trans ((isCopyOf_iff hid).2 hcopy)) Bool.false_ne_true
    exact iff_of_true hclean (.inr hclean)
  · cases found with
    | none => exact absurd ((equal_null_eq_false hid).symm.trans hcopied) Bool.false_ne_true
    | some c =>
      have hcopy : IsCopy id c := (isCopyOf_iff hid).1 hcopied
      rcases Path.get?_erase_self (Path.ofText_ne_nil column) hfound herase with
        ⟨hkeyed, hgone⟩ | ⟨hno, hstill⟩
      · refine iff_of_true (fun v hv => ?_) (.inl hkeyed)
        cases hgone.symm.trans (mem_places_single.1 hv)
      · refine iff_of_false (fun hclean => ?_) (not_or.2 ⟨hno, fun hclean => ?_⟩)
        · exact hclean c (mem_places_single.2 hstill) hcopy
        · exact hclean c (mem_places_single.2 hfound) hcopy

/-- What is left of a list is clean exactly if the element that was taken out was the only copy. -/
theorem clean_remaining_iff : Clean id (remaining embedded items) ↔
    (View.elements items).Releasable id embedded := by
  unfold remaining
  constructor
  · intro hclean i v hi hcopy
    split at hclean
    · next j hj =>
      by_cases hij : i = j
      · rw [hj, hij]
      · exact absurd hcopy (hclean v (List.mem_eraseIdx_iff_getElem?.2 ⟨i, hij, hi⟩))
    · exact absurd hcopy (hclean v (List.mem_of_getElem? hi))
  · intro hr v hv hcopy
    split at hv
    · next j hj =>
      obtain ⟨i, hij, hi⟩ := List.mem_eraseIdx_iff_getElem?.1 hv
      exact hij (Option.some.inj ((hr i v hi hcopy).symm.trans hj))
    · next hnone =>
      obtain ⟨i, hi⟩ := List.mem_iff_getElem?.1 hv
      cases (hr i v hi hcopy).symm.trans hnone

theorem releaseColumn_plain_clean_iff (hid : id ≠ .null) (hc : parts column = (top, none))
    (h : releaseColumn .many id embedded d column = .ok d') :
    Clean id (places .many d' column) ↔ Releasable .many id embedded d column := by
  rcases releaseColumn_plain hc h with ⟨hno, rfl⟩ | ⟨-, -, ⟨hlist, rfl⟩ | ⟨items, hitems, hleft⟩⟩
  · have hclean : Clean id (places .many d' column) := by
      rw [places_plain hc]
      exact clean_of_refers hid hno
    exact iff_of_true hclean hclean.releasable
  · unfold Releasable places
    rw [view_plain hc, listView_of_ne hlist]
    exact Iff.rfl
  · rw [Releasable, places_plain hc, view_plain hc, hitems, hleft]
    exact clean_remaining_iff

theorem part?_changeIn_clean (hid : id ≠ .null) {e : Value}
    (h : part? field (changeIn (·.eraseField field) field id e) = some v) : ¬ IsCopy id v := by
  intro hcopy
  cases e with
  | dict e =>
    rw [changeIn_dict, part?_dict] at h
    split at h
    · rw [Document.field?_eraseField_self] at h
      cases h
    · next hno => exact hno ((holdsIn_iff hid).2 ⟨v, h, hcopy⟩)
  | _ => cases h

theorem releaseColumn_nested_clean_iff (hid : id ≠ .null) (hc : parts column = (top, some field))
    (h : releaseColumn .many id embedded d column = .ok d') :
    Clean id (places .many d' column) ↔ Releasable .many id embedded d column := by
  unfold Releasable places
  rw [view_nested hc, view_nested hc]
  rcases releaseColumn_nested hc h with
    ⟨items, hitems, rfl⟩ | ⟨hlist, ⟨hfalsy, rfl⟩ | ⟨-, rfl⟩⟩
  · rw [Document.field?_putField_self, hitems]
    refine iff_of_true (fun v hv => ?_) trivial
    rw [values_slotView] at hv
    obtain ⟨e', he', hpart⟩ := List.mem_filterMap.1 hv
    obtain ⟨e, -, rfl⟩ := List.mem_map.1 he'
    exact part?_changeIn_clean hid hpart
  · rw [Document.field?_putField_self, slotView_of_ne hlist, found?_of_isTruthy hc hlist hfalsy]
    exact iff_of_true clean_nil clean_nil
  · rw [slotView_of_ne hlist]
    exact Iff.rfl

theorem releaseColumn_clean_iff (hid : id ≠ .null)
    (h : releaseColumn mode id embedded d column = .ok d') :
    Clean id (places mode d' column) ↔ Releasable mode id embedded d column := by
  cases mode with
  | single => exact releaseColumn_single_clean_iff hid h
  | many =>
    rcases hc : parts column with ⟨top, _ | field⟩
    · exact releaseColumn_plain_clean_iff hid hc h
    · exact releaseColumn_nested_clean_iff hid hc h

/-! ## Other columns -/

/-- Releasing a column that lies apart makes no difference. -/
theorem releaseColumn_apart (ha : Apart mode other column)
    (h : releaseColumn mode id embedded d other = .ok d') :
    (Releasable mode id embedded d' column ↔ Releasable mode id embedded d column) ∧
    (Clean id (places mode d' column) ↔ Clean id (places mode d column)) := by
  cases mode with
  | single =>
    obtain ⟨-, -, ⟨-, rfl⟩ | ⟨-, herase⟩⟩ := releaseColumn_single h
    · exact ⟨Iff.rfl, Iff.rfl⟩
    · have hread : d'.column? column = d.column? column := Path.get?_erase_of_apart ha herase
      have hplaces : places .single d' column = places .single d column := by
        rw [places, places, view_single, view_single, found?, found?, hread]
      unfold Releasable
      dsimp only
      rw [hplaces]
      refine ⟨?_, Iff.rfl⟩
      by_cases hclean : Clean id (places .single d column)
      · exact iff_of_true (.inr hclean) (.inr hclean)
      · -- There is a value that is still there, so what it has for a parent is so, too.
        have hne : places .single d column ≠ [] := by
          intro hnil
          rw [hnil] at hclean
          exact hclean clean_nil
        obtain ⟨v, hv⟩ := List.exists_mem_of_ne_nil _ hne
        rw [Path.keyed_erase_iff herase (hread.trans (mem_places_single.1 hv))]
  | many =>
    unfold Releasable places
    obtain hsame | ⟨found, -, hbare, hempty⟩ := view_releaseColumn_cases ha h
    · rw [hsame]
      exact ⟨Iff.rfl, Iff.rfl⟩
    · rw [hbare, hempty]
      exact ⟨iff_of_true trivial clean_nil, iff_of_true clean_nil clean_nil⟩

theorem isCopy_of_eraseField (hid : id ≠ .null) {name : String}
    (h : IsCopy id (.dict (d.eraseField name))) : IsCopy id (.dict d) := by
  rw [isCopy_dict] at h ⊢
  by_cases hname : name = "id"
  · subst hname
    rw [Document.fieldOrNull, Document.field?_eraseField_self] at h
    exact absurd ((equal_null_eq_false hid).symm.trans h) Bool.false_ne_true
  · rwa [Document.fieldOrNull, Document.field?_eraseField_of_ne (Ne.symm hname)] at h

/-- Erasing something inside of a value does not make a copy of it. -/
theorem not_isCopy_erase {path : Path} {c c' : Value} (hid : id ≠ .null) (hplain : Plain id)
    (hpath : path ≠ []) (hc : ¬ IsCopy id c) (h : Path.erase path c = .ok c') : ¬ IsCopy id c' := by
  obtain ⟨key, rest, rfl⟩ := List.exists_cons_of_ne_nil hpath
  by_cases hrest : rest = []
  · subst hrest
    cases c with
    | dict e =>
      cases h
      exact fun hcopy => hc (isCopy_of_eraseField hid hcopy)
    | _ => rwa [← Except.ok.inj h]
  · rcases Path.erase_cons_eq_ok hrest h with ⟨-, rfl⟩ | ⟨e, b, below, rfl, hb, hbelow, rfl⟩ |
      ⟨_, _, _, _, -, -, -, -, rfl⟩
    · exact hc
    · rw [isCopy_dict]
      intro hcopy
      refine hc (isCopy_dict.2 ?_)
      by_cases hkey : key = "id"
      · subst hkey
        rw [Document.fieldOrNull_putField_self] at hcopy
        rw [Document.fieldOrNull, hb]
        -- What changed below the identity is a container, and the identity is none.
        rcases Path.erase_eq_or_container hrest hbelow with rfl | hcontainer
        · exact hcopy
        · exact absurd ((hplain.equal_eq_false hcontainer).symm.trans hcopy) Bool.false_ne_true
      · rwa [Document.fieldOrNull_putField_of_ne (Ne.symm hkey)] at hcopy
    · rintro ⟨e, he, -⟩
      cases he

theorem clean_single (hid : id ≠ .null) (hplain : Plain id)
    (h : releaseColumn .single id embedded d other = .ok d')
    (hd : Clean id (places .single d column)) : Clean id (places .single d' column) := by
  obtain ⟨-, -, ⟨-, rfl⟩ | ⟨-, herase⟩⟩ := releaseColumn_single h
  · exact hd
  · intro v hv
    have hread := mem_places_single.1 hv
    rcases Path.get?_erase_cases herase (Path.ofText column) with
      hsame | hnone | ⟨rest, c, c', hrest, hc, hbelow, hc'⟩
    · exact hd v (mem_places_single.2 (hsame.symm.trans hread))
    · cases hnone.symm.trans hread
    · cases hc'.symm.trans hread
      exact not_isCopy_erase hid hplain hrest (hd c (mem_places_single.2 hc)) hbelow

/-- Taking a field out of an element gives nothing to any of its fields. -/
theorem part?_of_changeIn {name : String} {e : Value}
    (h : part? name (changeIn (·.eraseField field) field id e) = some v) :
    part? name e = some v := by
  cases e with
  | dict e =>
    rw [changeIn_dict, part?_dict] at h
    split at h
    · by_cases hname : name = field
      · subst hname
        rw [Document.field?_eraseField_self] at h
        cases h
      · rwa [Document.field?_eraseField_of_ne hname] at h
    · exact h
  | _ => exact h

theorem isCopy_of_changeIn (hid : id ≠ .null) {e : Value}
    (h : IsCopy id (changeIn (·.eraseField field) field id e)) : IsCopy id e := by
  cases e with
  | dict e =>
    rw [changeIn_dict] at h
    split at h
    · exact isCopy_of_eraseField hid h
    · exact h
  | _ => exact h

/-- Where a column of a rule for many is clean it stays so, whatever column is released. -/
theorem clean_many (hid : id ≠ .null) (h : releaseColumn .many id embedded d other = .ok d')
    (hd : Clean id (places .many d column)) : Clean id (places .many d' column) := by
  by_cases htop : (parts other).1 = (parts column).1
  · rcases ho : parts other with ⟨top, below⟩
    rcases hc : parts column with ⟨top', below'⟩
    rw [ho, hc] at htop
    obtain rfl : top = top' := htop
    -- What is left of a list are some of its elements, perhaps without a field.
    have hlist {items' : List Value} (hitems' : d'.field? top = some (.list items'))
        (hsub : ∀ e' ∈ items', ∃ items e, d.field? top = some (.list items) ∧ e ∈ items ∧
          (IsCopy id e' → IsCopy id e) ∧ ∀ name c, part? name e' = some c → part? name e = some c) :
        Clean id (places .many d' column) := by
      unfold places at hd ⊢
      cases below' with
      | none =>
        rw [view_plain hc] at hd
        rw [view_plain hc, hitems', values_listView]
        intro e' he' hcopied
        obtain ⟨items, e, hitems, he, hcopy, -⟩ := hsub e' he'
        rw [hitems, values_listView] at hd
        exact hd e he (hcopy hcopied)
      | some field =>
        rw [view_nested hc] at hd
        rw [view_nested hc, hitems', values_slotView]
        intro c hc
        obtain ⟨e', he', hpart⟩ := List.mem_filterMap.1 hc
        obtain ⟨items, e, hitems, he, -, hparts⟩ := hsub e' he'
        rw [hitems, values_slotView] at hd
        exact hd c (List.mem_filterMap.2 ⟨e, he, hparts field c hpart⟩)
    cases below with
    | none =>
      rcases releaseColumn_plain ho h with
        ⟨-, rfl⟩ | ⟨-, -, ⟨-, rfl⟩ | ⟨items, hitems, hleft⟩⟩
      · exact hd
      · exact hd
      · refine hlist hleft fun e he => ⟨items, e, hitems, mem_of_mem_remaining he, ?_⟩
        exact ⟨fun hcopy => hcopy, fun name c hpart => hpart⟩
    | some field =>
      rcases releaseColumn_nested ho h with
        ⟨items, hitems, rfl⟩ | ⟨-, ⟨-, rfl⟩ | ⟨-, rfl⟩⟩
      · refine hlist (Document.field?_putField_self _ _ _) fun e' he' => ?_
        obtain ⟨e, he, rfl⟩ := List.mem_map.1 he'
        exact ⟨items, e, hitems, he, isCopy_of_changeIn hid, fun name c => part?_of_changeIn⟩
      · exact hlist (Document.field?_putField_self _ _ _) nofun
      · exact hd
  · rw [places, view_many_congr (releaseColumn_many_other h (Ne.symm htop))]
    exact hd

/-- Where a column is clean it stays so, whatever column is released. A path that leads into an
identity must not make another one of it. -/
theorem releaseColumn_keeps_clean (hid : id ≠ .null) (hplain : mode = .many ∨ Plain id)
    (h : releaseColumn mode id embedded d other = .ok d') (hd : Clean id (places mode d column)) :
    Clean id (places mode d' column) := by
  cases mode with
  | single => exact clean_single hid (hplain.resolve_left nofun) h hd
  | many => exact clean_many hid h hd

/-! ## All columns -/

section Run

variable {before after : List String} {d₁ d₂ : Document}

theorem release_before_iff (ha : ∀ other ∈ before, Apart mode other column)
    (h : AtTurn (releaseColumn mode id embedded) before column after d d₁ d₂ d') :
    Releasable mode id embedded d₁ column ↔ Releasable mode id embedded d column :=
  (foldlM_keeps (fun other hother _ _ hs =>
    propext (releaseColumn_apart (ha other hother) hs).1) h.reached).to_iff

theorem release_after_iff (ha : ∀ other ∈ after, Apart mode other column)
    (h : AtTurn (releaseColumn mode id embedded) before column after d d₁ d₂ d') :
    Clean id (places mode d' column) ↔ Clean id (places mode d₂ column) :=
  (foldlM_keeps (fun other hother _ _ hs =>
    propext (releaseColumn_apart (ha other hother) hs).2) h.rest).to_iff

theorem release_after_clean (hid : id ≠ .null) (hplain : mode = .many ∨ Plain id)
    (h : AtTurn (releaseColumn mode id embedded) before column after d d₁ d₂ d')
    (hd : Clean id (places mode d₂ column)) : Clean id (places mode d' column) :=
  foldlM_preserves (P := fun d => Clean id (places mode d column))
    (fun _ _ _ _ hs => releaseColumn_keeps_clean hid hplain hs) hd h.rest

end Run

variable {σ : Type}

/-- A column of a cleaned target is left clean by its turn exactly if every copy that is in it then
stands where it is taken out. The turns of other columns make no difference to a column that lies
apart from them, and no turn brings a copy back. -/
theorem clean_target_iff (ctx : Context σ) (depth : Nat) (rule : Rule σ) (r : Record)
    (target after : Record) (s s' : σ) (hrule : rule.onDelete = .unset) (hid : r.id ≠ .null)
    (h : (clean ctx (Lifecycle.cascade ctx depth) rule r).run (target, s) = (.ok (), after, s')) :
    let embedded := r.embeddedValue (schemaOf ctx r)
    ∃ d, release rule.mode rule.columns r.id embedded target.data = .ok d ∧
      (∀ first column rest, rule.columns = first ++ column :: rest → ∃ d₁ d₂,
        AtTurn (releaseColumn rule.mode r.id embedded) first column rest target.data d₁ d₂ d ∧
        (Clean r.id (places rule.mode d₂ column) ↔
          Releasable rule.mode r.id embedded d₁ column) ∧
        ((∀ other ∈ first, Apart rule.mode other column) →
          (Releasable rule.mode r.id embedded d₁ column ↔
            Releasable rule.mode r.id embedded target.data column)) ∧
        ((∀ other ∈ rest, Apart rule.mode other column) →
          (Clean r.id (places rule.mode d column) ↔ Clean r.id (places rule.mode d₂ column))) ∧
        (rule.mode = .many ∨ Plain r.id → Clean r.id (places rule.mode d₂ column) →
          Clean r.id (places rule.mode d column))) ∧
      (ctx.LeavesRecords → (ctx.model target.model).casts = [] →
        { target with data := d }.isNew = false →
        Lifecycle.Stamped (ctx.model target.model) d after.data) := by
  intro embedded
  unfold clean at h
  rw [hrule] at h
  obtain ⟨d, hd, hsave⟩ := changeAndSave_eq_ok h
  refine ⟨d, hd, fun first column rest hcolumns => ?_, fun hl hcasts hnew => ?_⟩
  · unfold release at hd
    rw [hcolumns] at hd
    obtain ⟨d₁, d₂, hat⟩ := exists_atTurn hd
    exact ⟨d₁, d₂, hat, releaseColumn_clean_iff hid hat.own,
      fun ha => release_before_iff ha hat, fun ha => release_after_iff ha hat,
      fun hplain => release_after_clean hid hplain hat⟩
  · cases depth with
    | zero => cases hsave
    | succ depth =>
      have huncast : Lifecycle.Uncast ctx .standard { target with data := d } := .inr hcasts
      exact Lifecycle.stamped_of_save hl huncast rfl hnew hsave

/-! ### A shop that a deleted person watches twice -/

open Sample

/-- Takes the copies of Ann out of the watchers of a shop. -/
def releaseAnn : Action (Record × Unit) Unit :=
  clean .quiet (Lifecycle.cascade .quiet 1) watchersRule ann

theorem clean_target_iff_watchers :
    watchersRule.onDelete = .unset ∧ ann.id ≠ .null ∧
    ∃ after, releaseAnn.run (shop [person 2 "Bob", person 1 "Ann"], ()) = (.ok (), after, ()) ∧
      Clean ann.id (places .many after.data "watchers") := by
  have hid : ann.id ≠ .null := nofun
  obtain ⟨d, hd, hturns, -⟩ := clean_target_iff .quiet 1 watchersRule ann
    (shop [person 2 "Bob", person 1 "Ann"]) _ () _ rfl hid rfl
  obtain ⟨d₁, d₂, ⟨hfirst, -, hrest⟩, hiff, -, -, -⟩ := hturns [] "watchers" [] rfl
  cases hfirst
  cases hrest
  cases hd
  refine ⟨rfl, hid, _, rfl, hiff.2 fun i v hi hcopied => ?_⟩
  match i with
  | 0 =>
    cases hi
    exact absurd (isCopy_dict.1 hcopied) (by decide)
  | 1 => rfl
  | i + 2 => cases hi

/-- Of two copies of Ann only the first is taken out. -/
theorem not_clean_watchers :
    ∃ after, releaseAnn.run (shop [person 1 "Ann", person 2 "Bob", person 1 "Ann"], ()) =
        (.ok (), after, ()) ∧
      ¬ Clean ann.id (places .many after.data "watchers") := by
  refine ⟨_, rfl, fun hclean => ?_⟩
  exact hclean (.dict (person 1 "Ann")) (.tail _ (.head _)) ⟨_, rfl, rfl⟩

end DocumentMapper.Sync
