import DocumentMapper.Proofs.Model.Sample
import DocumentMapper.Proofs.Model.Saving
import DocumentMapper.Proofs.Sync.RefreshColumn
import DocumentMapper.Proofs.Sync.Transition
import DocumentMapper.Proofs.Value.Equality

/-!
# Whether copies are up to date

A change of a record should leave no copy of it as it was before. A column of one value and a field
of the elements of a list are always brought up to date. A list column is not: the payload goes in
the place of the first element with its identity and nowhere else, so that a second copy stays as
it was, and so does every copy behind a plain value that equals the identity.
-/

namespace DocumentMapper.Sync

open EmbeddedList

variable {mode : Mode} {id payload v : Value} {d d' d₀ : Document} {column other top field : String}
  {items : List Value}

/-- Whether all copies among some values equal a payload. -/
def Fresh (id payload : Value) (vs : List Value) : Prop :=
  ∀ v ∈ vs, IsCopy id v → v = payload

/-- Whether refreshing brings every copy in a column up to date: one among the elements of a list
does so at the position that the payload's identity is first found at. -/
def Renewable (id payload : Value) : View → Prop
  | .one _ | .slots _ => True
  | .elements items => ∀ i v, items[i]? = some v → IsCopy id v →
      v = payload ∨ positionOf? payload items = some i
  | .loose found => ∀ v, found = some v → ¬ IsCopy id v
  | .bare _ inside => Fresh id payload inside.toList

/-! ## Elements -/

theorem identity_dict (h : (d.fieldOrNull "id").isNull = false) :
    identity (.dict d) = d.fieldOrNull "id" := by
  simp only [identity, h]
  rfl

theorem isNull_of_equal (hid : id ≠ .null) (h : v.equal id = true) : v.isNull = false := by
  cases v with
  | null => exact absurd ((equal_null_eq_false hid).symm.trans h) Bool.false_ne_true
  | _ => rfl

/-- A copy is identified by the identity that it carries. -/
theorem identity_of_isCopy (hid : id ≠ .null) (h : IsCopy id v) : (identity v).equal id = true := by
  obtain ⟨d, rfl, h⟩ := h
  rw [identity_dict (isNull_of_equal hid h)]
  exact h

theorem equal_identity_self (hid : id ≠ .null) (h : IsCopy id v) :
    (identity v).equal (identity v) = true :=
  Value.equal_self_of_equal (identity_of_isCopy hid h)

/-- A copy has an entry, its identity, so it counts as present. -/
theorem isTruthy_of_isCopyOf (hid : id ≠ .null) (h : isCopyOf id v = true) : v.isTruthy = true := by
  obtain ⟨d, rfl, hequal⟩ := (isCopyOf_iff hid).1 h
  cases d with
  | nil => exact absurd ((equal_null_eq_false hid).symm.trans hequal) Bool.false_ne_true
  | cons => rfl

theorem positionOf?_set_self {i : Nat} (hrefl : (identity payload).equal (identity payload) = true)
    (h : positionOf? payload items = some i) :
    positionOf? payload (items.set i payload) = some i := by
  unfold positionOf? at h ⊢
  rw [List.findIdx?_eq_some_iff_getElem] at h ⊢
  obtain ⟨hlt, hi, hbefore⟩ := h
  refine ⟨by simpa using hlt, by simpa using hrefl, fun j hj => ?_⟩
  rw [List.getElem_set_ne (by omega)]
  exact hbefore j hj

theorem positionOf?_of_isCopy (hid : id ≠ .null) (hpid : identity payload = id) (hv : v ∈ items)
    (h : IsCopy id v) : positionOf? payload items ≠ none := by
  unfold positionOf?
  rw [ne_eq, List.findIdx?_eq_none_iff]
  intro hnone
  have hfalse := hnone v hv
  rw [hpid, identity_of_isCopy hid h] at hfalse
  cases hfalse

/-! ## A list column -/

/-- Where there is no copy, every copy is up to date and can be brought up to date. -/
theorem Clean.fresh {vs : List Value} (h : Clean id vs) : Fresh id payload vs :=
  fun v hv hcopy => absurd hcopy (h v hv)

theorem Clean.renewable {w : View} (h : Clean id w.values) : Renewable id payload w := by
  cases w with
  | one found => trivial
  | elements items => exact fun i v hi hcopy => absurd hcopy (h v (List.mem_of_getElem? hi))
  | loose found => exact fun v hv => h v (Option.mem_toList.2 hv)
  | slots slots => trivial
  | bare found inside => exact h.fresh

/-- A reassociated list holds no old copy exactly if the only one was at the position of the
payload's identity. -/
theorem fresh_set_iff {i : Nat} (hi : positionOf? payload items = some i) :
    Fresh id payload (items.set i payload) ↔ Renewable id payload (.elements items) := by
  have hlt : i < items.length := (List.findIdx?_eq_some_iff_getElem.1 hi).1
  constructor
  · intro hfresh j v hj hcopy
    by_cases hij : i = j
    · exact .inr (hij ▸ hi)
    · refine .inl (hfresh v (List.mem_of_getElem? (i := j) ?_) hcopy)
      rw [List.getElem?_set_ne hij, hj]
  · intro hat v hv hcopy
    obtain ⟨j, hj⟩ := List.mem_iff_getElem?.1 hv
    by_cases hij : i = j
    · subst hij
      rw [List.getElem?_set_self hlt] at hj
      exact (Option.some.inj hj).symm
    · rw [List.getElem?_set_ne hij] at hj
      rcases hat j v hj hcopy with h | h
      · exact h
      · exact absurd (Option.some.inj (hi.symm.trans h)) hij

theorem renewable_set_iff {i : Nat}
    (hrefl : (identity payload).equal (identity payload) = true)
    (hi : positionOf? payload items = some i) :
    Renewable id payload (.elements (items.set i payload)) ↔
      Renewable id payload (.elements items) := by
  have hi' := positionOf?_set_self hrefl hi
  have hlt : i < items.length := (List.findIdx?_eq_some_iff_getElem.1 hi).1
  constructor
  · intro h j v hj hcopy
    by_cases hij : i = j
    · exact .inr (hij ▸ hi)
    · rcases h j v (by rw [List.getElem?_set_ne hij, hj]) hcopy with hv | hv
      · exact .inl hv
      · exact absurd (Option.some.inj (hi'.symm.trans hv)) hij
  · intro h j v hj hcopy
    by_cases hij : i = j
    · exact .inr (hij ▸ hi')
    · rw [List.getElem?_set_ne hij] at hj
      rcases h j v hj hcopy with hv | hv
      · exact .inl hv
      · exact absurd (Option.some.inj (hi.symm.trans hv)) hij

/-- A field of the elements of a list can be brought up to date if it is already. -/
theorem Fresh.renewable_slotView {inside found : Option Value}
    (h : Fresh id payload (slotView field inside found).values) :
    Renewable id payload (slotView field inside found) := by
  cases found with
  | none => exact h
  | some v =>
    cases v with
    | list => trivial
    | _ => exact h

theorem part?_changeIn_fresh (hid : id ≠ .null) {copy : Document} (e : Value)
    (h : part? field (changeIn (·.putField field (.dict copy)) field id e) = some v)
    (hv : IsCopy id v) : v = .dict copy := by
  cases e with
  | dict e =>
    rw [changeIn_dict, part?_dict] at h
    split at h
    · rw [Document.field?_putField_self] at h
      exact (Option.some.inj h).symm
    · next hno =>
      have hholds : holdsIn field id (.dict e) = true := (holdsIn_iff hid).2 ⟨v, h, hv⟩
      exact absurd hholds hno
  | _ => cases h

theorem Reassociation.ne_null {w : Value} (hid : id ≠ .null) (h : Reassociation id payload v w) :
    v ≠ .null := by
  cases h with
  | started hany =>
    rintro rfl
    exact Bool.false_ne_true ((equal_null_eq_false hid).symm.trans hany)
  | _ => nofun

/-- What a column leads to below a dictionary is not what a position of that is. -/
theorem found?_reassociated {w : Value} (hc : parts column = (top, some field))
    (h : Reassociation id payload v w) (hv : v.isList = false) (hid : id ≠ .null)
    (hd : d.field? top = some v) : found? (d.putField top w) column = found? d column := by
  obtain ⟨key, rest, hpath⟩ := ofText_of_parts_some hc
  unfold found? Document.column?
  rw [hpath, Path.get?_dict_cons, Path.get?_dict_cons, Document.field?_putField_self, hd]
  cases h with
  | replaced => cases hv
  | appended => cases hv
  | started hany _ htruthy =>
    exact absurd (htruthy.symm.trans (isTruthy_of_isCopyOf hid hany)) Bool.false_ne_true
  | keyed =>
    simp only [Path.get?_dict_cons]
    rw [Document.field?_put_of_isText rfl]

section Payload

variable {copy : Document} (hid : id ≠ .null) (hown : copy.fieldOrNull "id" = id)
  (hcopy : IsCopy id (.dict copy))

include hid hown hcopy

theorem identity_payload : identity (.dict copy) = id := by
  rw [identity_dict, hown]
  obtain ⟨e, he, h⟩ := hcopy
  cases he
  exact isNull_of_equal hid h

/-- A list column is up to date afterwards exactly if its copies could all be replaced, and putting
the payload in its place once more would change nothing about that. -/
theorem Reassociation.fresh_iff {found : Option Value} {v' : Value}
    (h : Reassociation id (.dict copy) (found.getD .null) v') :
    (Fresh id (.dict copy) (listView (some v')).values ↔
      Renewable id (.dict copy) (listView found)) ∧
    (Renewable id (.dict copy) (listView (some v')) ↔
      Renewable id (.dict copy) (listView found)) := by
  have hsome {v : Value} (hv : found.getD .null = v) (hnull : v ≠ .null) : found = some v := by
    cases found with
    | none => exact absurd hv.symm hnull
    | some w => exact congrArg some hv
  generalize hv : found.getD .null = v at h
  cases h with
  | replaced _ hi =>
    rw [hsome hv nofun]
    exact ⟨fresh_set_iff hi, renewable_set_iff (equal_identity_self hid hcopy) hi⟩
  | appended hany hi =>
    obtain ⟨c, hc, hcopied⟩ := List.any_eq_true.1 hany
    refine absurd hi (positionOf?_of_isCopy hid (identity_payload hid hown hcopy) hc ?_)
    exact (isCopyOf_iff hid).1 hcopied
  | started hany _ htruthy =>
    exact absurd (htruthy.symm.trans (isTruthy_of_isCopyOf hid hany)) Bool.false_ne_true
  | @keyed e i hany _ _ =>
    rw [hsome hv nofun]
    have hold : IsCopy id (.dict e) := (isCopyOf_iff hid).1 hany
    have hnew : IsCopy id (.dict (e.put (.int i) (.dict copy))) := by
      rw [isCopy_dict] at hold ⊢
      rwa [Document.fieldOrNull, Document.field?_put_of_isText rfl]
    refine ⟨iff_of_false (fun hfresh => ?_) (fun hr => hr _ rfl hold),
      iff_of_false (fun hr => hr _ rfl hnew) (fun hr => hr _ rfl hold)⟩
    exact Document.dict_put_ne _ _ _ (hfresh _ List.mem_cons_self hnew)

/-! ## One column -/

/-- What refreshing does to the copies in its own column. -/
theorem refreshColumn_own (h : refreshColumn mode id (.dict copy) d column = .ok d') :
    (Fresh id (.dict copy) (places mode d' column) ↔
      Renewable id (.dict copy) (view mode d column)) ∧
    (Renewable id (.dict copy) (view mode d' column) ↔
      Renewable id (.dict copy) (view mode d column)) := by
  cases mode with
  | single =>
    rw [view_single, view_single]
    refine ⟨iff_of_true ?_ trivial, Iff.rfl⟩
    obtain ⟨found, hfound, ⟨hno, rfl⟩ | ⟨-, hput⟩⟩ := refreshColumn_single h
    · intro c hc hcopied
      cases hfound.symm.trans (mem_places_single.1 hc)
      exact absurd (hno.symm.trans ((isCopyOf_iff hid).2 hcopied)) Bool.false_ne_true
    · intro c hc _
      have hput' := Path.get?_put_self (Document.putColumn_eq_ok.1 hput)
      cases hput'.symm.trans (mem_places_single.1 hc)
      rfl
  | many =>
    unfold places
    rcases hc : parts column with ⟨top, _ | field⟩
    · rw [view_plain hc, view_plain hc]
      rcases refreshColumn_plain hc rfl h with ⟨hno, rfl⟩ | ⟨-, v, hv, rfl⟩
      · have hclean := clean_of_refers hid hno
        exact ⟨iff_of_true hclean.fresh hclean.renewable, Iff.rfl⟩
      · rw [Document.field?_putField_self]
        exact hv.fresh_iff hid hown hcopy
    · rw [view_nested hc, view_nested hc]
      rcases refreshColumn_nested hc h with ⟨rfl, hno⟩ | ⟨items, hitems, rfl⟩
      · refine ⟨?_, Iff.rfl⟩
        unfold slotView
        split
        · next items hitems =>
          refine iff_of_true (fun c hmem hcopied => ?_) trivial
          obtain ⟨e, he, hpart⟩ := List.mem_filterMap.1 (values_slotView none items ▸ hmem)
          have hholds := (holdsIn_iff hid).2 ⟨c, hpart, hcopied⟩
          exact absurd ((hno items hitems e he).symm.trans hholds) Bool.false_ne_true
        · exact Iff.rfl
      · rw [Document.field?_putField_self, hitems]
        refine ⟨iff_of_true (fun c hmem hcopied => ?_) trivial, Iff.rfl⟩
        rw [values_slotView] at hmem
        obtain ⟨e', he', hpart⟩ := List.mem_filterMap.1 hmem
        obtain ⟨e, -, rfl⟩ := List.mem_map.1 he'
        exact part?_changeIn_fresh hid e hpart hcopied

end Payload

/-! ## Columns that overlap -/

/-- A payload with no copy of the record inside. -/
structure Unnested (id : Value) (copy : Document) : Prop extends Plain id where
  below : ∀ path v, path ≠ [] → Path.get? (.dict copy) path = .ok (some v) → ¬ IsCopy id v

section Unnested

variable {copy : Document} (hu : Unnested id copy)

include hu

theorem Unnested.not_isCopy_part (h : part? field (.dict copy) = some v) : ¬ IsCopy id v := by
  refine hu.below [field] v (List.cons_ne_nil _ _) ?_
  rw [part?_dict] at h
  rw [Path.get?_dict_cons, h]
  rfl

/-- A dictionary without an identity is no more equal to one than what it lacks. -/
theorem Unnested.equal_identity_dict (hid : id ≠ .null) (e : Document) :
    (identity (.dict e)).equal id = (e.fieldOrNull "id").equal id := by
  cases hnull : (e.fieldOrNull "id").isNull with
  | false => rw [identity_dict hnull]
  | true =>
    simp only [identity, hnull, if_true]
    rw [hu.equal_eq_false (.inl rfl), Value.isNull_eq_true.1 hnull, equal_null_eq_false hid]

/-- Writing the payload inside of something that is no copy does not make it one. -/
theorem Unnested.not_isCopy_put {path : Path} {c c' : Value} (hpath : path ≠ [])
    (hc : ¬ IsCopy id c) (h : Path.put (.dict copy) path c = .ok c') : ¬ IsCopy id c' := by
  obtain ⟨key, rest, rfl⟩ := List.exists_cons_of_ne_nil hpath
  rcases Path.put_cons_eq_ok h with ⟨e, below, rfl, hb, rfl⟩ | ⟨_, _, _, _, _, _, _, _, rfl⟩
  · rintro ⟨e', he', hequal⟩
    cases he'
    by_cases hkey : key = "id"
    · subst hkey
      rw [Document.fieldOrNull_putField_self] at hequal
      -- What is written below the identity is a container, and the identity is none.
      have hbelow : below.isDict = true ∨ below.isList = true := by
        cases rest with
        | nil =>
          cases hb
          exact .inl rfl
        | cons key rest =>
          rcases Path.put_cons_eq_ok hb with ⟨_, _, _, _, rfl⟩ | ⟨_, _, _, _, _, _, _, _, rfl⟩
          · exact .inl rfl
          · exact .inr rfl
      exact Bool.false_ne_true ((hu.equal_eq_false hbelow).symm.trans hequal)
    · rw [Document.fieldOrNull_putField_of_ne (Ne.symm hkey)] at hequal
      exact hc ⟨e, rfl, hequal⟩
  · rintro ⟨e, he, -⟩
    cases he

theorem Unnested.fresh_single (hid : id ≠ .null)
    (h : refreshColumn .single id (.dict copy) d other = .ok d')
    (hd : Fresh id (.dict copy) (places .single d column)) :
    Fresh id (.dict copy) (places .single d' column) := by
  obtain ⟨found, hfound, ⟨-, rfl⟩ | ⟨hcopied, hput⟩⟩ := refreshColumn_single h
  · exact hd
  · cases found with
    | none => exact absurd ((equal_null_eq_false hid).symm.trans hcopied) Bool.false_ne_true
    | some old =>
      have hold : IsCopy id old := (isCopyOf_iff hid).1 hcopied
      rw [Document.putColumn_eq_ok] at hput
      intro v hv hcopied
      have hread := mem_places_single.1 hv
      rcases Path.get?_put_cases hfound hput (Path.ofText column) with
        hsame | ⟨rest, hrest⟩ | ⟨rest, c, c', hrest, hc, hcold, hput', hc'⟩
      · exact hd v (mem_places_single.2 (hsame.symm.trans hread)) hcopied
      · have hinside := hrest.symm.trans hread
        by_cases hnil : rest = []
        · subst hnil
          cases hinside
          rfl
        · exact absurd hcopied (hu.below rest v hnil hinside)
      · cases hc'.symm.trans hread
        by_cases hcopy : IsCopy id c
        · rw [hd c (mem_places_single.2 hc) hcopy] at hcold
          exact absurd hold (hu.below rest old hrest hcold)
        · exact absurd hcopied (hu.not_isCopy_put hrest hcopy hput')

/-- Putting the payload in the place of a copy in a field of a dictionary does not change whether
the dictionary carries the identity. -/
theorem Unnested.equal_putField {e : Document} {c : Value} (hc : e.field? field = some c)
    (hcopied : IsCopy id c) : ((e.putField field (.dict copy)).fieldOrNull "id").equal id =
      (e.fieldOrNull "id").equal id := by
  by_cases hfield : field = "id"
  · subst hfield
    obtain ⟨old, rfl, -⟩ := hcopied
    rw [Document.fieldOrNull_putField_self, Document.fieldOrNull, hc,
      hu.equal_eq_false (.inl rfl)]
    exact (hu.equal_eq_false (.inl rfl)).symm
  · rw [Document.fieldOrNull_putField_of_ne (Ne.symm hfield)]

/-- Changing an element whose field holds a copy makes no difference to what it is itself. -/
theorem Unnested.changeIn_iff (field : String) (hid : id ≠ .null) (e : Value) :
    (IsCopy id (changeIn (·.putField field (.dict copy)) field id e) ↔ IsCopy id e) ∧
    (changeIn (·.putField field (.dict copy)) field id e = .dict copy ↔ e = .dict copy) ∧
    (identity (changeIn (·.putField field (.dict copy)) field id e)).equal id =
      (identity e).equal id := by
  cases e with
  | dict e =>
    simp only [changeIn]
    split
    · next hholds =>
      obtain ⟨c, hc, hcopied⟩ := (holdsIn_iff hid).1 hholds
      have hequal := hu.equal_putField hc hcopied
      refine ⟨?_, iff_of_false (Document.dict_putField_ne _ _ _) ?_, ?_⟩
      · rw [isCopy_dict, isCopy_dict, hequal]
      · intro he
        rw [he] at hc
        exact hu.not_isCopy_part hc hcopied
      · rw [hu.equal_identity_dict hid, hu.equal_identity_dict hid, hequal]
    · exact ⟨Iff.rfl, Iff.rfl, rfl⟩
  | _ => exact ⟨Iff.rfl, Iff.rfl, rfl⟩

theorem Unnested.positionOf?_map (hid : id ≠ .null) (hown : copy.fieldOrNull "id" = id)
    (hcopy : IsCopy id (.dict copy)) (items : List Value) :
    positionOf? (.dict copy)
        (items.map (changeIn (·.putField field (.dict copy)) field id)) =
      positionOf? (.dict copy) items := by
  unfold positionOf?
  rw [List.findIdx?_map, identity_payload hid hown hcopy]
  congr 1
  exact funext fun e => (hu.changeIn_iff field hid e).2.2

/-- Refreshing a field of the elements of a list makes no difference to the elements that are
copies themselves. -/
theorem Unnested.elements_map_iff (field : String) (items : List Value) (hid : id ≠ .null)
    (hown : copy.fieldOrNull "id" = id) (hcopy : IsCopy id (.dict copy)) :
    (Renewable id (.dict copy)
        (.elements (items.map (changeIn (·.putField field (.dict copy)) field id))) ↔
      Renewable id (.dict copy) (.elements items)) ∧
    (Fresh id (.dict copy) (items.map (changeIn (·.putField field (.dict copy)) field id)) ↔
      Fresh id (.dict copy) items) := by
  have hcopied (e : Value) := (hu.changeIn_iff field hid e).1
  have heq (e : Value) := (hu.changeIn_iff field hid e).2.1
  constructor
  · simp only [Renewable, hu.positionOf?_map hid hown hcopy, List.getElem?_map,
      Option.map_eq_some_iff, forall_exists_index, and_imp, forall_apply_eq_imp_iff₂, hcopied, heq]
  · simp only [Fresh, List.mem_map, forall_exists_index, and_imp, forall_apply_eq_imp_iff₂,
      hcopied, heq]

/-- Putting the payload into a list or a dictionary makes no difference to whether the copies in
a field of the elements, or in what the field leads to, can be brought up to date, and leaves them
as they are. -/
theorem Unnested.slotView_iff {v v' : Value} (h : Reassociation id (.dict copy) v v')
    (hid : id ≠ .null) (inside inside' : Option Value)
    (hinside : v.isList = false → inside' = inside) :
    (Renewable id (.dict copy) (slotView field inside' (some v')) ↔
      Renewable id (.dict copy) (slotView field inside (some v))) ∧
    (Fresh id (.dict copy) (slotView field inside (some v)).values →
      Fresh id (.dict copy) (slotView field inside' (some v')).values) := by
  -- Where a list is reassociated its elements are the old ones and the payload.
  have hlist (items items' : List Value) (hsub : ∀ e ∈ items', e ∈ items ∨ e = .dict copy)
      (hfresh : Fresh id (.dict copy) (items.filterMap (part? field))) :
      Fresh id (.dict copy) (items'.filterMap (part? field)) := by
    intro c hc hcopied
    obtain ⟨e, he, hpart⟩ := List.mem_filterMap.1 hc
    rcases hsub e he with hmem | rfl
    · exact hfresh c (List.mem_filterMap.2 ⟨e, hmem, hpart⟩) hcopied
    · exact absurd hcopied (hu.not_isCopy_part hpart)
  cases h with
  | replaced =>
    rw [values_slotView, values_slotView]
    exact ⟨Iff.rfl, hlist _ _ fun e he => List.mem_or_eq_of_mem_set he⟩
  | @appended items =>
    rw [values_slotView, values_slotView]
    refine ⟨Iff.rfl, hlist _ _ fun e he => ?_⟩
    rcases List.mem_append.1 he with hmem | hcopy
    · exact .inl hmem
    · exact .inr (List.mem_singleton.1 hcopy)
  | started hany _ htruthy =>
    exact absurd (htruthy.symm.trans (isTruthy_of_isCopyOf hid hany)) Bool.false_ne_true
  | keyed =>
    rw [hinside rfl]
    exact ⟨Iff.rfl, fun hfresh => hfresh⟩

end Unnested

section Other

variable {copy : Document} (hid : id ≠ .null) (hown : copy.fieldOrNull "id" = id)
  (hcopy : IsCopy id (.dict copy))

include hid hown hcopy

/-- With nothing nested in the payload, refreshing one column does no harm to another, wherever
that stands. -/
theorem Unnested.refreshColumn_other (hu : Unnested id copy) (hne : other ≠ column)
    (h : refreshColumn mode id (.dict copy) d other = .ok d') :
    (Renewable id (.dict copy) (view mode d' column) ↔
      Renewable id (.dict copy) (view mode d column)) ∧
    (Fresh id (.dict copy) (places mode d column) →
      Fresh id (.dict copy) (places mode d' column)) ∧
    (¬ Renewable id (.dict copy) (view mode d column) →
      Fresh id (.dict copy) (places mode d' column) →
      Fresh id (.dict copy) (places mode d column)) := by
  cases mode with
  | single =>
    rw [view_single, view_single]
    exact ⟨Iff.rfl, hu.fresh_single hid h, fun hr => absurd trivial hr⟩
  | many =>
    by_cases ha : Apart .many other column
    · rw [places, places, view_refreshColumn_of_apart rfl ha h]
      exact ⟨Iff.rfl, fun hq => hq, fun _ hq => hq⟩
    · rcases ho : parts other with ⟨top, below⟩
      rcases hc : parts column with ⟨top', below'⟩
      rw [Apart, ho, hc] at ha
      obtain ⟨htop, hfields⟩ := not_or.1 ha
      obtain rfl : top = top' := Classical.not_not.1 htop
      cases below' with
      | none =>
        cases below with
        | none =>
          obtain ⟨-, rfl⟩ := nested?_of_parts_none ho
          exact absurd (nested?_of_parts_none hc).2 hne
        | some field =>
          rcases refreshColumn_nested ho h with ⟨rfl, -⟩ | ⟨items, hitems, rfl⟩
          · exact ⟨Iff.rfl, fun hq => hq, fun _ hq => hq⟩
          · obtain ⟨hr, hq⟩ := hu.elements_map_iff field items hid hown hcopy
            rw [places_plain hc, places_plain hc, view_plain hc, view_plain hc,
              Document.field?_putField_self, hitems, values_listView, values_listView]
            exact ⟨hr, hq.2, fun _ => hq.1⟩
      | some field =>
        cases below with
        | none =>
          rcases refreshColumn_plain ho rfl h with ⟨-, rfl⟩ | ⟨-, v, hv, rfl⟩
          · exact ⟨Iff.rfl, fun hq => hq, fun _ hq => hq⟩
          · have hold := Document.field?_of_fieldOrNull rfl (hv.ne_null hid)
            obtain ⟨hr, hq⟩ := hu.slotView_iff hv hid (found? d column)
              (found? (d.putField top v) column)
              (fun hlist => found?_reassociated hc hv hlist hid hold)
            rw [places, places, view_nested hc, view_nested hc, Document.field?_putField_self,
              hold]
            exact ⟨hr, hq, fun hno hfresh => absurd (hr.1 hfresh.renewable_slotView) hno⟩
        | some field' =>
          -- The columns name the same field, or they would lie apart.
          have hfield : field' = field :=
            Classical.not_not.1 fun hff => hfields ⟨field', field, rfl, rfl, hff⟩
          subst hfield
          have hsame : refreshColumn .many id (.dict copy) d column = .ok d' := by
            rw [← h]
            unfold refreshColumn
            rw [nested?_of_parts_some hc, nested?_of_parts_some ho]
          obtain ⟨hq, hr⟩ := refreshColumn_own hid hown hcopy hsame
          refine ⟨hr, fun hfresh => hq.2 ?_, fun hno hfresh => absurd (hq.1 hfresh) hno⟩
          rw [places, view_nested hc] at hfresh
          rw [view_nested hc]
          exact hfresh.renewable_slotView

/-! ## All columns -/

theorem refresh_fresh_iff {columns : List String} (hc : column ∈ columns)
    (hcolumns : (∀ other ∈ columns, other = column ∨ Apart mode other column) ∨ Unnested id copy)
    (h : refresh mode columns id (.dict copy) d = .ok d') :
    Fresh id (.dict copy) (places mode d' column) ↔
      Renewable id (.dict copy) (view mode d column) := by
  refine foldlM_iff (P := fun d => Renewable id (.dict copy) (view mode d column))
    (Q := fun d => Fresh id (.dict copy) (places mode d column))
    (fun d d' => refreshColumn_own hid hown hcopy) (fun other hother hne d d' hs => ?_) hc h
  rcases hcolumns with hapart | hu
  · have ha := (hapart other hother).resolve_left hne
    rw [places, places, view_refreshColumn_of_apart rfl ha hs]
    exact ⟨Iff.rfl, fun hq => hq, fun _ hq => hq⟩
  · exact hu.refreshColumn_other hid hown hcopy hne hs

end Other

variable {σ : Type}

/-- No old copy is left in a column of an updated target by its turn exactly if every copy that is
in it then can be brought up to date, and by the whole run exactly if that is so at the start. For
the latter the column must not share its places with another one, unless nothing is nested in the
payload. -/
theorem changeAndSave_refresh_fresh_iff (ctx : Context σ) (depth : Nat) (rule : Rule σ)
    (r : Record) (copy : Document) (target after : Record) (s s' : σ) (hid : r.id ≠ .null)
    (hown : copy.fieldOrNull "id" = r.id) (hcopy : IsCopy r.id (.dict copy))
    (h : (changeAndSave (Lifecycle.cascade ctx depth)
      (refresh rule.mode rule.columns r.id (.dict copy))
      { SaveOptions.standard with cast := false }).run (target, s) = (.ok (), after, s')) :
    ∃ d, refresh rule.mode rule.columns r.id (.dict copy) target.data = .ok d ∧
      (∀ first column rest, rule.columns = first ++ column :: rest → ∃ d₁ d₂,
        AtTurn (refreshColumn rule.mode r.id (.dict copy)) first column rest target.data d₁ d₂ d ∧
        (Fresh r.id (.dict copy) (places rule.mode d₂ column) ↔
          Renewable r.id (.dict copy) (view rule.mode d₁ column))) ∧
      (∀ column ∈ rule.columns,
        (∀ other ∈ rule.columns, other = column ∨ Apart rule.mode other column) ∨
          Unnested r.id copy →
        (Fresh r.id (.dict copy) (places rule.mode d column) ↔
          Renewable r.id (.dict copy) (view rule.mode target.data column))) ∧
      (ctx.LeavesRecords → { target with data := d }.isNew = false →
        Lifecycle.Stamped (ctx.model target.model) d after.data) := by
  obtain ⟨d, hd, hsave⟩ := changeAndSave_eq_ok h
  refine ⟨d, hd, fun first column rest hcolumns => ?_,
    fun column hc hcolumns => refresh_fresh_iff hid hown hcopy hc hcolumns hd, fun hl hnew => ?_⟩
  · unfold refresh at hd
    rw [hcolumns] at hd
    obtain ⟨d₁, d₂, hat⟩ := exists_atTurn hd
    exact ⟨d₁, d₂, hat, (refreshColumn_own hid hown hcopy hat.own).1⟩
  · cases depth with
    | zero => cases hsave
    | succ depth => exact Lifecycle.stamped_of_save hl (.inl rfl) rfl hnew hsave

/-! ### A shop with the same watcher twice -/

open Sample

theorem isCopy_ann (name : String) : IsCopy ann.id (.dict (person 1 name)) :=
  ⟨_, rfl, rfl⟩

/-- Refreshes the copies of Ann among the watchers of a shop. -/
def refreshAnn : Action (Record × Unit) Unit :=
  changeAndSave (Lifecycle.cascade .quiet 1)
    (refresh watchersRule.mode watchersRule.columns ann.id (.dict (person 1 "Ann")))
    { SaveOptions.standard with cast := false }

theorem changeAndSave_refresh_fresh_iff_watchers :
    ann.id ≠ .null ∧ (person 1 "Ann").fieldOrNull "id" = ann.id ∧
    IsCopy ann.id (.dict (person 1 "Ann")) ∧
    ∃ after, refreshAnn.run (shop [person 2 "Bob", person 1 "Anne"], ()) = (.ok (), after, ()) ∧
      Fresh ann.id (.dict (person 1 "Ann")) (places .many after.data "watchers") := by
  have hid : ann.id ≠ .null := nofun
  obtain ⟨d, hd, -, hiff, -⟩ := changeAndSave_refresh_fresh_iff .quiet 1 watchersRule ann
    (person 1 "Ann") (shop [person 2 "Bob", person 1 "Anne"]) _ () _ hid rfl (isCopy_ann "Ann") rfl
  cases hd
  refine ⟨hid, rfl, isCopy_ann "Ann", _, rfl, (hiff "watchers" List.mem_cons_self ?_).2 ?_⟩
  · exact .inl fun other hother => .inl (List.mem_singleton.1 hother)
  · intro i v hi hcopied
    match i with
    | 0 =>
      cases hi
      exact absurd (isCopy_dict.1 hcopied) (by decide)
    | 1 => exact .inr rfl
    | i + 2 => cases hi

/-- Of two copies of Ann only the first is brought up to date. -/
theorem not_fresh_watchers :
    ∃ after, refreshAnn.run (shop [person 1 "Anne", person 2 "Bob", person 1 "Anne"], ()) =
        (.ok (), after, ()) ∧
      ¬ Fresh ann.id (.dict (person 1 "Ann")) (places .many after.data "watchers") := by
  refine ⟨_, rfl, fun hfresh => ?_⟩
  have hanne := hfresh (.dict (person 1 "Anne")) (.tail _ (.tail _ (.head _))) (isCopy_ann "Anne")
  simp [person] at hanne

end DocumentMapper.Sync
