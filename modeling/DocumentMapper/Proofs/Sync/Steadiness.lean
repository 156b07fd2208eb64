import DocumentMapper.Proofs.Path.Modify
import DocumentMapper.Proofs.Sync.Freshness

/-!
# Columns that need no refreshing

Each way of refreshing a column leaves alone what it made itself: a payload in a column of one
value is a copy of itself, a payload in a list is found in its place again, and so is one in a field
of an element. As no way disturbs a column that lies apart, a second run over columns that lie
apart changes nothing. In a rule for many it is enough that no column is a path prefix of another
one.
-/

namespace DocumentMapper.Sync

open EmbeddedList

variable {mode : Mode} {id payload v v' : Value} {d d' : Document}
  {column other top field : String} {columns : List String}

/-- Whether refreshing a column leaves a document as it is. -/
def Steady (mode : Mode) (id payload : Value) (d : Document) (column : String) : Prop :=
  refreshColumn mode id payload d column = .ok d

/-! ## A column of one value -/

theorem steady_single_iff : Steady .single id payload d column ↔
    ∃ found, d.column? column = .ok found ∧
      (isCopyOf id (found.getD .null) = true → found = some payload) := by
  constructor
  · intro h
    obtain ⟨found, hfound, ⟨hno, -⟩ | ⟨-, hput⟩⟩ := refreshColumn_single h
    · exact ⟨found, hfound, fun hcopy => absurd (hno.symm.trans hcopy) Bool.false_ne_true⟩
    · have hread := Path.get?_put_self (Document.putColumn_eq_ok.1 hput)
      exact ⟨some payload, hread, fun _ => rfl⟩
  · rintro ⟨found, hfound, hcopied⟩
    simp only [Steady, refreshColumn, references_single hfound]
    cases hcopy : isCopyOf id (found.getD .null) with
    | false => rfl
    | true =>
      have hread : d.column? column = .ok (some payload) := by rw [hfound, hcopied hcopy]
      exact Document.putColumn_eq_ok.2 (Path.put_of_get?_self hread)

/-! ## A list column -/

theorem refers_null (hid : id ≠ .null) : refers id .null = false := by
  rw [refers_of_isList rfl]
  exact equal_null_eq_false hid

theorem steady_plain_iff (hc : parts column = (top, none)) (hid : id ≠ .null)
    (hp : payload.isNull = false) : Steady .many id payload d column ↔
      (refers id (d.fieldOrNull top) = true →
        reassociated payload (d.fieldOrNull top) = .ok (d.fieldOrNull top)) := by
  have ht := ofText_of_parts hc
  obtain ⟨hn, rfl⟩ := nested?_of_parts_none hc
  simp only [Steady, refreshColumn, hn, references_many ht]
  cases hv : refers id (d.fieldOrNull top) with
  | false => exact iff_of_true rfl fun h => absurd h Bool.false_ne_true
  | true =>
    have hnull : d.fieldOrNull top ≠ .null := by
      intro hnull
      rw [hnull, refers_null hid] at hv
      cases hv
    have hfield := Document.field?_of_fieldOrNull rfl hnull
    show reassociate d top payload = .ok d ↔ _
    rw [reassociate_of_segment ht hp, Outcome.map_eq_ok]
    constructor
    · rintro ⟨w, hw, hput⟩ -
      have hread := Document.fieldOrNull_putField_self d top w
      rw [hput] at hread
      rw [hw, hread]
    · intro h
      exact ⟨_, h rfl, Document.putField_of_field? hfield⟩

/-- What was written to a list column counts as present. -/
theorem Reassociation.isTruthy (h : Reassociation id payload v v') : v'.isTruthy = true := by
  cases h with
  | @replaced items i hany hi =>
    cases items with
    | nil => cases hany
    | cons => cases i <;> rfl
  | @appended items => cases items <;> rfl
  | started => rfl
  | keyed => exact Document.isTruthy_put _ _ _

theorem positionOf?_append_self
    (hself : (identity payload).equal (identity payload) = true) {items : List Value}
    (h : positionOf? payload items = none) :
    positionOf? payload (items ++ [payload]) = some items.length := by
  unfold positionOf? at h ⊢
  rw [List.findIdx?_append, h]
  simp [List.findIdx?_cons, hself]

theorem positionOf?_keys_put {key : Value} {i : Nat} {e : Document}
    (h : positionOf? payload (e.map (·.1)) = some i) :
    positionOf? payload ((Document.put key v e).map (·.1)) = some i := by
  rcases Document.map_fst_put key v e with hkeys | hkeys
  · rw [hkeys, h]
  · unfold positionOf? at h ⊢
    rw [hkeys, List.findIdx?_append, h]
    rfl

/-- A payload that was put into a list column is found in its place again. -/
theorem Reassociation.again (hid : id ≠ .null)
    (hself : (identity payload).equal (identity payload) = true)
    (h : Reassociation id payload v v') : reassociated payload v' = .ok v' := by
  rw [reassociated_of_isTruthy h.isTruthy]
  cases h with
  | @replaced items i _ hi =>
    simp [Value.parts, positionOf?_set_self hself hi, replaceAt, bind, Except.bind]
  | @appended items _ hi =>
    simp [Value.parts, positionOf?_append_self hself hi, replaceAt, bind, Except.bind]
  | started hany _ hfalsy =>
    exact absurd (hfalsy.symm.trans (isTruthy_of_isCopyOf hid hany)) Bool.false_ne_true
  | @keyed e i _ _ hi =>
    -- The position is a key now, but it comes after the keys that it was found among.
    have hkey : (Value.int i).same (.int i) = true := by simp [Value.same, Value.sameScalar]
    simp [Value.parts, positionOf?_keys_put hi, replaceAt, Document.put_put hkey, bind, Except.bind]

/-! ## A field of the elements of a list -/

theorem steady_nested_iff (hc : parts column = (top, some field)) :
    Steady .many id payload d column ↔ ∀ items, d.field? top = some (.list items) →
      ∀ e ∈ items, changeIn (·.putField field payload) field id e = e := by
  constructor
  · intro h items hitems e he
    rcases refreshColumn_nested hc h with ⟨-, hno⟩ | ⟨items', hitems', hd⟩
    · have hholds := hno items hitems e he
      cases e with
      | dict e => rw [changeIn_dict, if_neg (by simp [hholds])]
      | _ => rfl
    · cases hitems.symm.trans hitems'
      have hread := Document.field?_putField_self d top
        (.list (items.map (changeIn (·.putField field payload) field id)))
      rw [← hd, hitems] at hread
      have hmap : items.map (changeIn (·.putField field payload) field id) =
          items.map fun e => e := by simpa using hread.symm
      exact List.map_inj_left.1 hmap e he
  · intro h
    have ht := ofText_of_parts hc
    have hn := nested?_of_parts_some hc
    simp only [Steady, refreshColumn, hn, replaceNested]
    obtain ⟨items, hitems, he⟩ | ⟨hno, ⟨-, he⟩ | ⟨-, he⟩⟩ := elements?_of_segment (d := d) ht
    · have hmap : items.map (changeIn (·.putField field payload) field id) = items :=
        (List.map_congr_left (h items hitems)).trans (List.map_id _)
      simp only [he, bind, Except.bind, hmap, Document.putColumn_of_segment ht,
        Document.putField_of_field? hitems, ite_self]
    · rw [he]
      rfl
    · rw [he]
      rfl

theorem changeIn_changeIn (field : String) (id payload e : Value) :
    changeIn (·.putField field payload) field id
        (changeIn (·.putField field payload) field id e) =
      changeIn (·.putField field payload) field id e := by
  cases e with
  | dict e =>
    by_cases hholds : holdsIn field id (.dict e) = true
    · have htwice := Document.putField_putField field payload payload e
      rw [changeIn_dict, if_pos hholds, changeIn_dict, htwice, ite_self]
    · rw [changeIn_dict, if_neg hholds, changeIn_dict, if_neg hholds]
  | _ => rfl

/-- Changing one field of an element does not disturb another one that needs no change. -/
theorem changeIn_of_ne (hne : field ≠ other) {e : Value}
    (h : changeIn (·.putField field payload) field id e = e) :
    changeIn (·.putField field payload) field id
        (changeIn (·.putField other payload) other id e) =
      changeIn (·.putField other payload) other id e := by
  cases e with
  | dict e =>
    by_cases hother : holdsIn other id (.dict e) = true
    · have hread : Document.field? (Document.putField e other payload) field =
          Document.field? e field := Document.field?_putField_of_ne hne
      have hsame : holdsIn field id (.dict (Document.putField e other payload)) =
          holdsIn field id (.dict e) := by
        simp only [holdsIn, Document.fieldOrNull, hread]
      rw [changeIn_dict _ other, if_pos hother, changeIn_dict, hsame]
      by_cases hholds : holdsIn field id (.dict e) = true
      · rw [changeIn_dict, if_pos hholds] at h
        have hpayload : Document.field? e field = some payload := by
          rw [← Value.dict.inj h, Document.field?_putField_self]
        rw [if_pos hholds, Document.putField_of_field? (hread.trans hpayload)]
      · rw [if_neg hholds]
    · rw [changeIn_dict _ other, if_neg hother, h]
  | _ => rfl

/-! ## All columns -/

section Columns

variable {copy : Document} (hid : id ≠ .null) (hcopy : IsCopy id (.dict copy))

include hid hcopy

/-- Refreshing a column leaves alone what it made itself. -/
theorem steady_own (h : refreshColumn mode id (.dict copy) d column = .ok d') :
    Steady mode id (.dict copy) d' column := by
  cases mode with
  | single =>
    obtain ⟨found, -, ⟨-, rfl⟩ | ⟨-, hput⟩⟩ := refreshColumn_single h
    · exact h
    · have hread := Path.get?_put_self (Document.putColumn_eq_ok.1 hput)
      exact steady_single_iff.2 ⟨_, hread, fun _ => rfl⟩
  | many =>
    rcases hc : parts column with ⟨top, _ | field⟩
    · rcases refreshColumn_plain hc rfl h with ⟨-, rfl⟩ | ⟨-, v, hv, rfl⟩
      · exact h
      · rw [steady_plain_iff hc hid rfl, Document.fieldOrNull_putField_self]
        exact fun _ => hv.again hid (equal_identity_self hid hcopy)
    · rcases refreshColumn_nested hc h with ⟨rfl, -⟩ | ⟨items, -, rfl⟩
      · exact h
      · rw [steady_nested_iff hc, Document.field?_putField_self]
        intro items' hitems e he
        cases hitems
        obtain ⟨e, -, rfl⟩ := List.mem_map.1 he
        exact changeIn_changeIn field id (.dict copy) e

omit hcopy in
/-- Refreshing a column does not disturb one that lies apart. -/
theorem steady_of_apart (ha : Apart mode other column)
    (h : refreshColumn mode id (.dict copy) d other = .ok d')
    (hd : Steady mode id (.dict copy) d column) : Steady mode id (.dict copy) d' column := by
  cases mode with
  | single =>
    obtain ⟨found, -, ⟨-, rfl⟩ | ⟨-, hput⟩⟩ := refreshColumn_single h
    · exact hd
    · have hsame := Path.get?_put_of_apart ha (Document.putColumn_eq_ok.1 hput)
      rw [steady_single_iff, Document.column?] at hd ⊢
      rw [hsame]
      exact hd
  | many =>
    rcases hc : parts column with ⟨top, below⟩
    by_cases htop : top = (parts other).1
    · subst htop
      rw [Apart, hc] at ha
      obtain ⟨f, field, ho, hbelow, hne⟩ := ha.resolve_left (not_not_intro rfl)
      obtain rfl : below = some field := hbelow
      have ho : parts other = ((parts other).1, some f) := Prod.ext rfl ho
      rcases refreshColumn_nested ho h with ⟨rfl, -⟩ | ⟨items, hitems, rfl⟩
      · exact hd
      · rw [steady_nested_iff hc] at hd ⊢
        rw [Document.field?_putField_self]
        intro items' hitems' e he
        cases hitems'
        obtain ⟨e, hmem, rfl⟩ := List.mem_map.1 he
        exact changeIn_of_ne (Ne.symm hne) (hd items hitems e hmem)
    · have hsame := refreshColumn_many_other rfl h htop
      cases below with
      | none =>
        rw [steady_plain_iff hc hid rfl, Document.fieldOrNull] at hd ⊢
        rw [hsame]
        exact hd
      | some field =>
        rw [steady_nested_iff hc] at hd ⊢
        rw [hsame]
        exact hd

/-- Refreshing once more changes nothing, if the columns lie apart or are refreshed alike. -/
theorem refresh_again (hcolumns : ∀ a ∈ columns, ∀ b ∈ columns,
      (refreshColumn mode id (.dict copy) · a) = (refreshColumn mode id (.dict copy) · b) ∨
        Apart mode a b)
    (h : refresh mode columns id (.dict copy) d = .ok d') :
    refresh mode columns id (.dict copy) d' = .ok d' := by
  refine foldlM_again (fun c _ d d' => steady_own hid hcopy) (fun a ha b hb d d' hs hd => ?_) h
  rcases hcolumns a ha b hb with halike | hapart
  · have hown := steady_own hid hcopy hs
    exact (congrFun halike d').symm.trans hown
  · exact steady_of_apart hid hapart hs hd

end Columns

/-- Whether no column is a path prefix of another one. -/
def PrefixFree (columns : List String) : Prop :=
  ∀ a ∈ columns, ∀ b ∈ columns, Path.ofText a <+: Path.ofText b → a = b

instance : Decidable (PrefixFree columns) :=
  inferInstanceAs (Decidable (∀ a ∈ columns, ∀ b ∈ columns, _))

/-- A list column is a path prefix of the columns that name a field of its elements. -/
theorem prefix_of_parts {a b : String} (ha : parts a = (top, none))
    (hb : parts b = (top, some field)) : Path.ofText a <+: Path.ofText b ∧ a ≠ b := by
  obtain ⟨key, rest, hpath⟩ := ofText_of_parts_some hb
  have htext := ofText_of_parts ha
  obtain ⟨-, rfl⟩ := nested?_of_parts_none ha
  refine ⟨?_, ?_⟩
  · rw [htext, hpath]
    exact List.prefix_append [top] (key :: rest)
  · rintro rfl
    cases ha.symm.trans hb

/-- In a rule for many, columns none of which is a prefix of another one lie apart, unless they
name the same list and the same field of its elements. -/
theorem PrefixFree.alike_or_apart (h : PrefixFree columns) {a b : String} (ha : a ∈ columns)
    (hb : b ∈ columns) :
    (refreshColumn .many id payload · a) = (refreshColumn .many id payload · b) ∨
      Apart .many a b := by
  rcases hpa : parts a with ⟨top, below⟩
  rcases hpb : parts b with ⟨top', below'⟩
  rw [Apart, hpa, hpb]
  by_cases htop : top = top'
  · subst htop
    cases below with
    | none =>
      cases below' with
      | none =>
        left
        rw [← (nested?_of_parts_none hpa).2, ← (nested?_of_parts_none hpb).2]
      | some g =>
        obtain ⟨hbegins, hne⟩ := prefix_of_parts hpa hpb
        exact absurd (h a ha b hb hbegins) hne
    | some f =>
      cases below' with
      | none =>
        obtain ⟨hbegins, hne⟩ := prefix_of_parts hpb hpa
        exact absurd (h b hb a ha hbegins) hne
      | some g =>
        by_cases hfg : f = g
        · subst hfg
          left
          funext d
          simp only [refreshColumn, nested?_of_parts_some hpa, nested?_of_parts_some hpb]
        · exact .inr (.inr ⟨f, g, rfl, rfl, hfg⟩)
  · exact .inr (.inl htop)

end DocumentMapper.Sync
