import DocumentMapper.Proofs.Path.Erase
import DocumentMapper.Proofs.Sync.Columns
import DocumentMapper.Proofs.Sync.Places

/-!
# What releasing a column does

Each of the three ways of taking copies out of a column, with what comes of it: a value is erased
by its path, one element is taken out of a list, or a field is taken out of all elements that hold
a copy there.
-/

namespace DocumentMapper.Sync

open EmbeddedList

variable {mode : Mode} {id v : Value} {embedded : Except Error Value} {d d' : Document}
  {column other top field : String} {items : List Value}

/-- The position at which an element is taken out of a list. Null is not looked for. -/
def taken? (embedded : Except Error Value) (items : List Value) : Option Nat :=
  match embedded with
  | .ok .null | .error _ => none
  | .ok v => positionOf? v items

/-- What is left of a list. -/
def remaining (embedded : Except Error Value) (items : List Value) : List Value :=
  match taken? embedded items with
  | some i => items.eraseIdx i
  | none => items

theorem taken?_of_ne_null (h : v ≠ .null) : taken? (.ok v) items = positionOf? v items := by
  cases v with
  | null => exact absurd rfl h
  | _ => rfl

theorem mem_of_mem_remaining (h : v ∈ remaining embedded items) : v ∈ items := by
  unfold remaining at h
  split at h
  · exact List.mem_of_mem_eraseIdx h
  · exact h

/-- What releasing a column of one value does. -/
theorem releaseColumn_single (h : releaseColumn .single id embedded d column = .ok d') :
    ∃ found, d.column? column = .ok found ∧
      ((isCopyOf id (found.getD .null) = false ∧ d' = d) ∨
        (isCopyOf id (found.getD .null) = true ∧
          Path.erase (Path.ofText column) (.dict d) = .ok (.dict d'))) := by
  obtain ⟨found, hfound, hno | ⟨hcopy, h⟩⟩ := change_of_references_single h
  · exact ⟨found, hfound, .inl hno⟩
  · exact ⟨found, hfound, .inr ⟨hcopy, Document.eraseColumn_eq_ok.1 h⟩⟩

/-- Taking an element out of a list column. What is no list stays as it is. -/
theorem disassociate_eq_ok (ht : Path.ofText top = [top])
    (h : disassociate d top v = .ok d') :
    (∀ name, name ≠ top → d'.field? name = d.field? name) ∧
    (((∀ items, d.field? top ≠ some (.list items)) ∧ d' = d) ∨
      ∃ items, d.field? top = some (.list items) ∧
        d'.field? top = some (.list (remaining (.ok v) items))) := by
  unfold disassociate at h
  simp only [Document.columnD_of_segment ht, bind, Except.bind] at h
  split at h
  · cases h
    refine ⟨fun _ _ => rfl, ?_⟩
    by_cases hlist : ∃ items, d.field? top = some (.list items)
    · obtain ⟨items, hitems⟩ := hlist
      exact .inr ⟨items, hitems, hitems⟩
    · exact .inl ⟨fun items hitems => hlist ⟨items, hitems⟩, rfl⟩
  · next v _ _ items hnull hitems =>
    rw [Document.putColumn_of_segment ht] at h
    cases h
    refine ⟨fun _ => Document.field?_putField_of_ne, .inr ⟨items, ?_, ?_⟩⟩
    · exact Document.field?_of_fieldOrNull hitems nofun
    · have htaken : taken? (.ok v) items = positionOf? v items := taken?_of_ne_null hnull
      rw [Document.field?_putField_self]
      cases hi : positionOf? v items with
      | none => simp [remaining, htaken, hi]
      | some i => simp [remaining, htaken, hi]
  · next hother =>
    cases h
    refine ⟨fun _ _ => rfl, .inl ⟨fun items hitems => hother items ?_, rfl⟩⟩
    rw [Document.fieldOrNull, hitems]
    rfl

/-- What releasing a list column does. -/
theorem releaseColumn_plain (hc : parts column = (top, none))
    (h : releaseColumn .many id embedded d column = .ok d') :
    (refers id (d.fieldOrNull top) = false ∧ d' = d) ∨
    (refers id (d.fieldOrNull top) = true ∧
      (∀ name, name ≠ top → d'.field? name = d.field? name) ∧
      (((∀ items, d.field? top ≠ some (.list items)) ∧ d' = d) ∨
        ∃ items, d.field? top = some (.list items) ∧
          d'.field? top = some (.list (remaining embedded items)))) := by
  have ht := ofText_of_parts hc
  obtain ⟨hn, rfl⟩ := nested?_of_parts_none hc
  unfold releaseColumn at h
  simp only [hn] at h
  obtain hno | ⟨hrefers, h⟩ := change_of_references_many ht h
  · exact .inl hno
  · obtain ⟨v, rfl, h⟩ := Outcome.bind_eq_ok.1 h
    exact .inr ⟨hrefers, disassociate_eq_ok ht h⟩

/-- What releasing a field of the elements of a list does: these lose it where it holds a copy, a
list is put where nothing counts as present, and anything else stays. -/
theorem releaseColumn_nested (hc : parts column = (top, some field))
    (h : releaseColumn .many id embedded d column = .ok d') :
    (∃ items, d.field? top = some (.list items) ∧ d' = d.putField top
      (.list (items.map (changeIn (·.eraseField field) field id)))) ∨
    ((∀ items, d.field? top ≠ some (.list items)) ∧
      (((d.fieldOrNull top).isTruthy = false ∧ d' = d.putField top (.list [])) ∨
        ((d.fieldOrNull top).isTruthy = true ∧ d' = d))) := by
  have ht := ofText_of_parts hc
  have hn := nested?_of_parts_some hc
  unfold releaseColumn at h
  simp only [hn] at h
  unfold unsetNested at h
  obtain ⟨items, hitems, he⟩ | ⟨hno, ⟨hfalsy, he⟩ | ⟨htruthy, he⟩⟩ :=
    elements?_of_segment (d := d) ht
  · simp only [he, bind, Except.bind, Document.putColumn_of_segment ht] at h
    exact .inl ⟨items, hitems, (Except.ok.inj h).symm⟩
  · simp only [he, bind, Except.bind, Document.putColumn_of_segment ht] at h
    exact .inr ⟨hno, .inl ⟨hfalsy, (Except.ok.inj h).symm⟩⟩
  · rw [he] at h
    exact .inr ⟨hno, .inr ⟨htruthy, (Except.ok.inj h).symm⟩⟩

/-! ## Other columns -/

/-- In a rule for many, releasing a column changes one field of the document. -/
theorem releaseColumn_many_other (h : releaseColumn .many id embedded d column = .ok d')
    {name : String} (hn : name ≠ (parts column).1) : d'.field? name = d.field? name := by
  rcases hc : parts column with ⟨top, _ | field⟩
  · rw [hc] at hn
    rcases releaseColumn_plain hc h with ⟨-, rfl⟩ | ⟨-, hothers, -⟩
    · rfl
    · exact hothers name hn
  · rw [hc] at hn
    rcases releaseColumn_nested hc h with ⟨items, -, rfl⟩ | ⟨-, ⟨-, rfl⟩ | ⟨-, rfl⟩⟩
    · exact Document.field?_putField_of_ne hn
    · exact Document.field?_putField_of_ne hn
    · rfl

/-- Releasing a column that lies apart makes no difference, unless it puts a list where another
column looks for one and nothing counts as present. -/
theorem view_releaseColumn_cases (ha : Apart mode other column)
    (h : releaseColumn mode id embedded d other = .ok d') :
    view mode d' column = view mode d column ∨
      ∃ found, (found.getD .null).isTruthy = false ∧
        view mode d column = .bare found none ∧ view mode d' column = .slots [] := by
  cases mode with
  | single =>
    refine .inl ?_
    obtain ⟨-, -, ⟨-, rfl⟩ | ⟨-, herase⟩⟩ := releaseColumn_single h
    · rfl
    · have hread : d'.column? column = d.column? column := Path.get?_erase_of_apart ha herase
      rw [view_single, view_single, found?, found?, hread]
  | many =>
    by_cases htop : (parts other).1 = (parts column).1
    · obtain ⟨f, g, hf, hg, hfg⟩ := ha.resolve_left (not_not_intro htop)
      have ho : parts other = ((parts column).1, some f) := Prod.ext htop hf
      have hc : parts column = ((parts column).1, some g) := Prod.ext rfl hg
      rw [view_nested hc, view_nested hc]
      rcases releaseColumn_nested ho h with
        ⟨items, hitems, rfl⟩ | ⟨hlist, ⟨hfalsy, rfl⟩ | ⟨-, rfl⟩⟩
      · have hother (e : Document) : (e.eraseField f).field? g = e.field? g :=
          Document.field?_eraseField_of_ne (Ne.symm hfg)
        rw [Document.field?_putField_self, hitems]
        exact .inl (slotView_changeIn_of_ne hother _ _ items)
      · rw [Document.field?_putField_self, slotView_of_ne hlist,
          found?_of_isTruthy hc hlist hfalsy]
        exact .inr ⟨_, hfalsy, rfl, rfl⟩
      · exact .inl rfl
    · exact .inl (view_many_congr (releaseColumn_many_other h (Ne.symm htop)))

end DocumentMapper.Sync
