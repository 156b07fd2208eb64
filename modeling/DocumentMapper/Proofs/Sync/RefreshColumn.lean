import DocumentMapper.Proofs.Sync.Columns
import DocumentMapper.Proofs.Sync.Places

/-!
# What refreshing a column does

Each of the three ways of refreshing a column either leaves the document as it is or writes one
value to it. These are the possibilities, each with what must hold for it to come about.
-/

namespace DocumentMapper.Sync

open EmbeddedList

variable {id payload v v' : Value} {d d' : Document} {column top field : String}

/-- What becomes of a value that is taken to hold a copy when a payload is put in its place. -/
inductive Reassociation (id payload : Value) : Value → Value → Prop
  | replaced {items : List Value} {i : Nat} : items.any (isCopyOf id) = true →
      positionOf? payload items = some i →
      Reassociation id payload (.list items) (.list (items.set i payload))
  | appended {items : List Value} : items.any (isCopyOf id) = true →
      positionOf? payload items = none →
      Reassociation id payload (.list items) (.list (items ++ [payload]))
  /-- What does not count as present makes way for a list. -/
  | started {v : Value} : isCopyOf id v = true → v.isList = false → v.isTruthy = false →
      Reassociation id payload v (.list [payload])
  /-- A dictionary is searched by its keys and written to by a position. -/
  | keyed {e : Document} {i : Nat} : isCopyOf id (.dict e) = true → e ≠ [] →
      positionOf? payload (e.map (·.1)) = some i →
      Reassociation id payload (.dict e) (.dict (e.put (.int i) payload))

/-- What becomes of the value of a list column when a payload is put into the list that it stands
for. -/
def reassociated (payload v : Value) : Except Error Value := do
  let whole := v.orElse (.list [])
  match positionOf? payload (← whole.parts) with
  | some i => replaceAt payload i whole
  | none => append payload whole

theorem reassociate_of_segment (ht : Path.ofText top = [top]) (hp : payload.isNull = false) :
    reassociate d top payload =
      (d.putField top ·) <$> reassociated payload (d.fieldOrNull top) := by
  unfold reassociate reassociated
  rw [if_neg (by simp [hp]), current_of_segment ht]
  simp only [Document.putColumn_of_segment ht, bind, Except.bind]
  cases ((d.fieldOrNull top).orElse (.list [])).parts with
  | error e => rfl
  | ok keys =>
    simp only
    cases positionOf? payload keys with
    | some i => cases replaceAt payload i ((d.fieldOrNull top).orElse (.list [])) <;> rfl
    | none => cases append payload ((d.fieldOrNull top).orElse (.list [])) <;> rfl

theorem reassociated_of_isTruthy (h : v.isTruthy = true) : reassociated payload v = (do
    match positionOf? payload (← v.parts) with
    | some i => replaceAt payload i v
    | none => append payload v) := by
  rw [reassociated, Value.orElse, if_pos h]

/-- What does not count as present makes way for a list with the payload. -/
theorem reassociated_of_not_isTruthy (h : v.isTruthy = false) :
    reassociated payload v = .ok (.list [payload]) := by
  rw [reassociated, Value.orElse, if_neg (Bool.eq_false_iff.1 h)]
  rfl

theorem reassociation_of_reassociated (hv : refers id v = true)
    (h : reassociated payload v = .ok v') : Reassociation id payload v v' := by
  cases htruthy : v.isTruthy with
  | true =>
    rw [reassociated_of_isTruthy htruthy] at h
    obtain ⟨keys, hkeys, h⟩ := Outcome.bind_eq_ok.1 h
    cases v with
    | list items =>
      cases hkeys
      split at h
      · next i hi =>
        cases h
        exact .replaced hv hi
      · next hi =>
        cases h
        exact .appended hv hi
    | dict e =>
      cases hkeys
      split at h
      · next i hi =>
        cases h
        have hsome : e ≠ [] := by simpa [Value.isTruthy] using htruthy
        exact .keyed ((refers_of_isList rfl).symm.trans hv) hsome hi
      · cases h
    | tuple items => split at h <;> cases h
    | text s => split at h <;> cases h
    | _ => cases hkeys
  | false =>
    rw [reassociated_of_not_isTruthy htruthy] at h
    cases h
    have hlist : v.isList = false := by
      cases v with
      | list items =>
        have hnil : items = [] := by simpa [Value.isTruthy] using htruthy
        rw [hnil] at hv
        cases hv
      | _ => rfl
    rw [refers_of_isList hlist] at hv
    exact .started hv hlist htruthy

/-- What refreshing a list column does. -/
theorem refreshColumn_plain (hc : parts column = (top, none)) (hp : payload.isNull = false)
    (h : refreshColumn .many id payload d column = .ok d') :
    (refers id (d.fieldOrNull top) = false ∧ d' = d) ∨
    (refers id (d.fieldOrNull top) = true ∧
      ∃ v, Reassociation id payload (d.fieldOrNull top) v ∧ d' = d.putField top v) := by
  have ht := ofText_of_parts hc
  obtain ⟨hn, rfl⟩ := nested?_of_parts_none hc
  unfold refreshColumn at h
  simp only [hn] at h
  obtain hno | ⟨hrefers, h⟩ := change_of_references_many ht h
  · exact .inl hno
  · rw [reassociate_of_segment ht hp] at h
    obtain ⟨v, hchanged, hput⟩ := Outcome.map_eq_ok.1 h
    exact .inr ⟨hrefers, v, reassociation_of_reassociated hrefers hchanged, hput.symm⟩

/-- What refreshing a field of the elements of a list does. -/
theorem refreshColumn_nested (hc : parts column = (top, some field))
    (h : refreshColumn .many id payload d column = .ok d') :
    (d' = d ∧ ∀ items, d.field? top = some (.list items) →
      ∀ e ∈ items, holdsIn field id e = false) ∨
    (∃ items, d.field? top = some (.list items) ∧ d' = d.putField top
      (.list (items.map (changeIn (·.putField field payload) field id)))) := by
  have ht := ofText_of_parts hc
  have hn := nested?_of_parts_some hc
  unfold refreshColumn at h
  simp only [hn] at h
  unfold replaceNested at h
  obtain ⟨items, hitems, he⟩ | ⟨hno, he⟩ := elements?_of_segment (d := d) ht
  · simp only [he, bind, Except.bind] at h
    split at h
    · rw [Document.putColumn_of_segment ht] at h
      exact .inr ⟨items, hitems, (Except.ok.inj h).symm⟩
    · next hany =>
      refine .inl ⟨(Except.ok.inj h).symm, fun items' hitems' e hmem => ?_⟩
      cases hitems.symm.trans hitems'
      exact Bool.eq_false_iff.2 fun hh => hany (List.any_eq_true.2 ⟨e, hmem, hh⟩)
  · refine .inl ⟨?_, fun items hitems => absurd hitems (hno items)⟩
    rcases he with ⟨-, he⟩ | ⟨-, he⟩
    · rw [he] at h
      exact (Except.ok.inj h).symm
    · rw [he] at h
      exact (Except.ok.inj h).symm

/-- What refreshing a column of one value does. -/
theorem refreshColumn_single (h : refreshColumn .single id payload d column = .ok d') :
    ∃ found, d.column? column = .ok found ∧
      ((isCopyOf id (found.getD .null) = false ∧ d' = d) ∨
        (isCopyOf id (found.getD .null) = true ∧ d.putColumn column payload = .ok d')) :=
  change_of_references_single h

/-! ## Other columns -/

/-- In a rule for many, refreshing a column changes one field of the document. -/
theorem refreshColumn_many_other (hp : payload.isNull = false)
    (h : refreshColumn .many id payload d column = .ok d') {name : String}
    (hn : name ≠ (parts column).1) : d'.field? name = d.field? name := by
  rcases hc : parts column with ⟨top, _ | field⟩
  · rw [hc] at hn
    rcases refreshColumn_plain hc hp h with ⟨-, rfl⟩ | ⟨-, v, -, rfl⟩
    · rfl
    · exact Document.field?_putField_of_ne hn
  · rw [hc] at hn
    rcases refreshColumn_nested hc h with ⟨rfl, -⟩ | ⟨items, -, rfl⟩
    · rfl
    · exact Document.field?_putField_of_ne hn

/-- Refreshing a column leaves alone what is in one that lies apart. -/
theorem view_refreshColumn_of_apart {mode : Mode} {other : String} (hp : payload.isNull = false)
    (ha : Apart mode column other) (h : refreshColumn mode id payload d column = .ok d') :
    view mode d' other = view mode d other := by
  cases mode with
  | single =>
    obtain ⟨v, -, ⟨-, rfl⟩ | ⟨-, hput⟩⟩ := refreshColumn_single h
    · rfl
    · unfold view found? Document.column?
      rw [Path.get?_put_of_apart ha (Document.putColumn_eq_ok.1 hput)]
  | many =>
    by_cases htop : (parts column).1 = (parts other).1
    · obtain ⟨f, g, hf, hg, hfg⟩ := ha.resolve_left (not_not_intro htop)
      have hc : parts column = ((parts other).1, some f) := Prod.ext htop hf
      have ho : parts other = ((parts other).1, some g) := Prod.ext rfl hg
      rw [view_nested ho, view_nested ho]
      rcases refreshColumn_nested hc h with ⟨rfl, -⟩ | ⟨items, hitems, rfl⟩
      · rfl
      · rw [Document.field?_putField_self, hitems]
        exact slotView_changeIn_of_ne
          (fun e => Document.field?_putField_of_ne (Ne.symm hfg)) _ _ items
    · exact view_many_congr (refreshColumn_many_other hp h (Ne.symm htop))

end DocumentMapper.Sync
