import DocumentMapper.Proofs.Document.Fields
import DocumentMapper.Proofs.Path.Apart
import DocumentMapper.Sync.Copies

/-!
# Where copies stand

A column of a rule holds values in some places: the value that it leads to, or, in a rule for many,
the elements of a list or one field of each of them. A copy of a record is a dictionary in such a
place that carries the identity of the record.

Two columns lie apart if neither of them has a place inside one of the other, so that what is
written to one is not seen in the other.
-/

namespace DocumentMapper.Sync

open EmbeddedList

variable {mode : Mode} {id v : Value} {d d' : Document} {column other top field : String}
  {items : List Value}

/-- A dictionary with an identity. -/
def IsCopy (id v : Value) : Prop :=
  ∃ d : Document, v = .dict d ∧ (d.fieldOrNull "id").equal id = true

theorem equal_null_eq_false (h : id ≠ .null) : Value.equal .null id = false := by
  cases id with
  | null => exact absurd rfl h
  | _ => rfl

theorem isCopy_dict {d : Document} :
    IsCopy id (.dict d) ↔ (d.fieldOrNull "id").equal id = true := by
  constructor
  · rintro ⟨e, he, h⟩
    cases he
    exact h
  · intro h
    exact ⟨d, rfl, h⟩

/-- An identity that is no container. -/
structure Plain (id : Value) : Prop where
  isDict : id.isDict = false
  isList : id.isList = false

theorem Plain.equal_eq_false (hp : Plain id) (h : v.isDict = true ∨ v.isList = true) :
    v.equal id = false := by
  have hdict := hp.isDict
  have hlist := hp.isList
  cases id with
  | dict => cases hdict
  | list => cases hlist
  | _ =>
    cases v with
    | dict => rfl
    | list => rfl
    | _ => rcases h with h | h <;> cases h

/-- Whether there is no copy among some values. -/
def Clean (id : Value) (vs : List Value) : Prop :=
  ∀ v ∈ vs, ¬ IsCopy id v

theorem clean_nil : Clean id [] :=
  List.forall_mem_nil _

theorem isCopyOf_iff (hid : id ≠ .null) : isCopyOf id v = true ↔ IsCopy id v := by
  constructor
  · intro h
    cases v with
    | dict d => exact ⟨d, rfl, h⟩
    | _ => exact absurd ((equal_null_eq_false hid).symm.trans h) Bool.false_ne_true
  · rintro ⟨d, rfl, h⟩
    exact h

/-! ## Columns -/

/-- The field of the document that a column of a rule for many is about, and the field of its
elements if the column names one. -/
def parts (column : String) : String × Option String :=
  match nested? column with
  | some (top, field) => (top, some field)
  | none => (column, none)

theorem nested?_of_parts_some (h : parts column = (top, some field)) :
    nested? column = some (top, field) := by
  unfold parts at h
  split at h
  · next he =>
    cases h
    exact he
  · cases h

theorem nested?_of_parts_none (h : parts column = (top, none)) :
    nested? column = none ∧ top = column := by
  unfold parts at h
  split at h
  · cases h
  · next he =>
    cases h
    exact ⟨he, rfl⟩

theorem ofText_of_parts {below : Option String} (h : parts column = (top, below)) :
    Path.ofText top = [top] := by
  unfold parts nested? at h
  split at h
  · next he =>
    split at he
    · next top' field' rest hpath =>
      cases he
      cases h
      exact Path.ofText_of_mem (hpath ▸ List.mem_cons_self)
    · cases he
  · next he =>
    cases h
    split at he
    · cases he
    · next hpath =>
      cases hp : Path.ofText column with
      | nil => exact absurd hp (Path.ofText_ne_nil column)
      | cons segment rest =>
        cases rest with
        | nil => rw [Path.ofText_eq_singleton hp]
        | cons next rest => exact absurd hp (hpath segment next rest)

theorem ofText_of_parts_some (h : parts column = (top, some field)) :
    ∃ key rest, Path.ofText column = top :: key :: rest := by
  have hn := nested?_of_parts_some h
  unfold nested? at hn
  split at hn
  · next top' key rest hpath =>
    cases hn
    exact ⟨key, rest, hpath⟩
  · cases hn

/-- Whether no place of a column lies inside one of another column. -/
def Apart : Mode → String → String → Prop
  | .single, other, column => Path.apart (Path.ofText other) (Path.ofText column) = true
  | .many, other, column =>
    (parts other).1 ≠ (parts column).1 ∨
      ∃ f g, (parts other).2 = some f ∧ (parts column).2 = some g ∧ f ≠ g

/-! ## Places -/

/-- What an element has in a field. One that is no dictionary has itself. -/
inductive Slot where
  | field (found : Option Value)
  | other (e : Value)

def slot (field : String) : Value → Slot
  | .dict d => .field (Document.field? d field)
  | e => .other e

/-- What is in a column, if anything is: the value of a column of one, the elements of a list or
the field of each of them. Where a list should be there may be something else, and a path may lead
on inside of that. -/
inductive View where
  | one (found : Option Value)
  | elements (items : List Value)
  | loose (found : Option Value)
  | slots (items : List Slot)
  | bare (found inside : Option Value)

/-- What stands in a column, nothing if it cannot be read. -/
def found? (d : Document) (column : String) : Option Value :=
  (d.column? column).toOption.join

def listView : Option Value → View
  | some (.list items) => .elements items
  | found => .loose found

def slotView (field : String) (inside : Option Value) : Option Value → View
  | some (.list items) => .slots (items.map (slot field))
  | found => .bare found inside

def view (mode : Mode) (d : Document) (column : String) : View :=
  match mode, parts column with
  | .single, _ => .one (found? d column)
  | .many, (top, none) => listView (d.field? top)
  | .many, (top, some field) => slotView field (found? d column) (d.field? top)

def Slot.found? : Slot → Option Value
  | .field found => found
  | .other _ => none

/-- What stands in a field of an element. -/
def part? (field : String) (e : Value) : Option Value :=
  (slot field e).found?

@[simp] theorem part?_dict (field : String) (d : Document) :
    part? field (.dict d) = d.field? field := rfl

/-- The values in the places of a view. -/
def View.values : View → List Value
  | .one found | .loose found => found.toList
  | .elements items => items
  | .slots items => items.filterMap Slot.found?
  | .bare _ inside => inside.toList

def places (mode : Mode) (d : Document) (column : String) : List Value :=
  (view mode d column).values

theorem view_plain (hc : parts column = (top, none)) :
    view .many d column = listView (d.field? top) := by
  unfold view
  rw [hc]

theorem view_nested (hc : parts column = (top, some field)) :
    view .many d column = slotView field (found? d column) (d.field? top) := by
  unfold view
  rw [hc]

theorem listView_of_ne {found : Option Value} (h : ∀ items, found ≠ some (.list items)) :
    listView found = .loose found := by
  unfold listView
  split
  · next items => exact absurd rfl (h items)
  · rfl

theorem slotView_of_ne {inside found : Option Value} (h : ∀ items, found ≠ some (.list items)) :
    slotView field inside found = .bare found inside := by
  unfold slotView
  split
  · next items => exact absurd rfl (h items)
  · rfl

theorem isList_getD {found : Option Value} (h : ∀ items, found ≠ some (.list items)) :
    (found.getD .null).isList = false := by
  cases found with
  | none => rfl
  | some v =>
    cases v with
    | list items => exact absurd rfl (h items)
    | _ => rfl

theorem found?_eq_some : found? d column = some v ↔ d.column? column = .ok (some v) := by
  unfold found?
  cases d.column? column with
  | error e => simp [Except.toOption]
  | ok found => simp [Except.toOption]

theorem found?_of_column? {found : Option Value} (h : d.column? column = .ok found) :
    found? d column = found := by
  unfold found?
  rw [h]
  rfl

theorem view_single : view .single d column = .one (found? d column) := by
  unfold view
  rfl

theorem mem_places_single : v ∈ places .single d column ↔ d.column? column = .ok (some v) := by
  rw [places, view_single, View.values, Option.mem_toList, found?_eq_some]

/-- What a column leads to below the first segment depends on what is there. -/
theorem found?_congr (hc : parts column = (top, some field)) (h : d'.field? top = d.field? top) :
    found? d' column = found? d column := by
  obtain ⟨key, rest, hpath⟩ := ofText_of_parts_some hc
  unfold found? Document.column?
  rw [hpath, Path.get?_dict_cons, Path.get?_dict_cons, h]

/-- What is in a column of a rule for many depends on one field of the document. -/
theorem view_many_congr (h : d'.field? (parts column).1 = d.field? (parts column).1) :
    view .many d' column = view .many d column := by
  rcases hc : parts column with ⟨top, _ | field⟩
  · rw [hc] at h
    rw [view_plain hc, view_plain hc, h]
  · rw [hc] at h
    rw [view_nested hc, view_nested hc, h, found?_congr hc h]

/-- Below what does not count as present there is nothing. -/
theorem found?_of_isTruthy (hc : parts column = (top, some field))
    (hlist : ∀ items, d.field? top ≠ some (.list items))
    (h : (d.fieldOrNull top).isTruthy = false) : found? d column = none := by
  obtain ⟨key, rest, hpath⟩ := ofText_of_parts_some hc
  unfold found? Document.column?
  rw [hpath, Path.get?_dict_cons]
  rw [Document.fieldOrNull] at h
  cases hv : d.field? top with
  | none => rfl
  | some v =>
    rw [hv] at h
    cases v with
    | dict e =>
      have hnil : e = [] := by simpa [Value.isTruthy] using h
      rw [hnil]
      rfl
    | list items => exact absurd hv (hlist items)
    | _ => rfl

/-- The elements of a list, or a value that is none by itself. -/
def held : Value → List Value
  | .list items => items
  | v => [v]

theorem places_plain (hc : parts column = (top, none)) :
    places .many d column = (listView (d.field? top)).values := by
  rw [places, view_plain hc]

theorem values_listView (v : Value) : (listView (some v)).values = held v := by
  cases v <;> rfl

theorem mem_held_of_mem_values {found : Option Value} (hv : v ∈ (listView found).values) :
    v ∈ held (found.getD .null) := by
  cases found with
  | none => cases hv
  | some w =>
    rw [values_listView] at hv
    exact hv

theorem values_slotView (inside : Option Value) (items : List Value) :
    (slotView field inside (some (.list items))).values = items.filterMap (part? field) :=
  List.filterMap_map

theorem holdsIn_iff (hid : id ≠ .null) :
    holdsIn field id v = true ↔ ∃ c, part? field v = some c ∧ IsCopy id c := by
  cases v with
  | dict d =>
    rw [holdsIn, isCopyOf_iff hid, part?_dict, Document.fieldOrNull]
    cases Document.field? d field with
    | none => simp [IsCopy]
    | some c => simp
  | _ => simp [holdsIn, part?, slot, Slot.found?]

theorem changeIn_dict (change : Document → Document) (field : String) (id : Value) (e : Document) :
    changeIn change field id (.dict e) =
      .dict (if holdsIn field id (.dict e) = true then change e else e) := by
  simp only [changeIn]
  split <;> rfl

/-! ## What is taken for a copy -/

/-- Whether a rule for many takes a value to hold a copy. -/
def refers (id v : Value) : Bool :=
  (held v).any (isCopyOf id)

theorem refers_of_isList (h : v.isList = false) : refers id v = isCopyOf id v := by
  cases v with
  | list => cases h
  | _ => simp [refers, held]

theorem references_many (h : Path.ofText top = [top]) :
    references .many d top id = .ok (refers id (d.fieldOrNull top)) := by
  unfold references
  rw [Document.columnD_of_segment h]
  cases hv : d.fieldOrNull top with
  | list items => rfl
  | _ => simp [refers, held, bind, Except.bind]

/-- Where nothing is taken for a copy there is no copy. -/
theorem clean_of_refers {found : Option Value} (hid : id ≠ .null)
    (h : refers id (found.getD .null) = false) : Clean id (listView found).values := by
  intro c hc hcopy
  have hany : refers id (found.getD .null) = true :=
    List.any_eq_true.2 ⟨c, mem_held_of_mem_values hc, (isCopyOf_iff hid).2 hcopy⟩
  exact Bool.false_ne_true (h.symm.trans hany)

theorem references_single {found : Option Value} (h : d.column? column = .ok found) :
    references .single d column id = .ok (isCopyOf id (found.getD .null)) := by
  unfold Document.column? at h
  simp [references, Document.columnD, Path.getD, h, bind, Except.bind]

/-- A column of one value is changed where it holds a copy. -/
theorem change_of_references_single {change : Except Error Document}
    (h : (do if ← references .single d column id then change else .ok d) = .ok d') :
    ∃ found, d.column? column = .ok found ∧
      ((isCopyOf id (found.getD .null) = false ∧ d' = d) ∨
        (isCopyOf id (found.getD .null) = true ∧ change = .ok d')) := by
  obtain ⟨here, hrefers, h⟩ := Outcome.bind_eq_ok.1 h
  unfold references at hrefers
  obtain ⟨v, hv, hcopy⟩ := Outcome.bind_eq_ok.1 hrefers
  obtain ⟨found, hfound, hv⟩ := Outcome.bind_eq_ok.1 hv
  cases hv
  cases hcopy
  refine ⟨found, hfound, ?_⟩
  cases hcopy : isCopyOf id (found.getD .null) with
  | false =>
    rw [hcopy] at h
    exact .inl ⟨rfl, (Except.ok.inj h).symm⟩
  | true =>
    rw [hcopy] at h
    exact .inr ⟨rfl, h⟩

/-- A list column is changed where it refers to the record. -/
theorem change_of_references_many (ht : Path.ofText top = [top]) {change : Except Error Document}
    (h : (do if ← references .many d top id then change else .ok d) = .ok d') :
    (refers id (d.fieldOrNull top) = false ∧ d' = d) ∨
      (refers id (d.fieldOrNull top) = true ∧ change = .ok d') := by
  rw [references_many ht] at h
  cases hv : refers id (d.fieldOrNull top) with
  | false =>
    rw [hv] at h
    exact .inl ⟨rfl, (Except.ok.inj h).symm⟩
  | true =>
    rw [hv] at h
    exact .inr ⟨rfl, h⟩

theorem current_of_segment (h : Path.ofText top = [top]) :
    current d top = .ok ((d.fieldOrNull top).orElse (.list [])) := by
  unfold current
  rw [Document.columnD_of_segment h]
  rfl

/-- The elements of the list in a field. What does not count as present is as good as an empty
list, and anything else has no elements. -/
theorem elements?_of_segment (h : Path.ofText top = [top]) :
    (∃ items, d.field? top = some (.list items) ∧ elements? d top = .ok (some items)) ∨
    ((∀ items, d.field? top ≠ some (.list items)) ∧
      (((d.fieldOrNull top).isTruthy = false ∧ elements? d top = .ok (some [])) ∨
        ((d.fieldOrNull top).isTruthy = true ∧ elements? d top = .ok none))) := by
  unfold elements?
  rw [current_of_segment h, Document.fieldOrNull]
  cases hv : d.field? top with
  | none => exact .inr ⟨by simp, .inl ⟨rfl, rfl⟩⟩
  | some v =>
    cases v with
    | list items =>
      refine .inl ⟨items, rfl, ?_⟩
      cases items <;> rfl
    | _ =>
      refine .inr ⟨by simp, ?_⟩
      simp only [Option.getD_some, Value.orElse]
      split
      · next htruthy => exact .inr ⟨htruthy, rfl⟩
      · next hfalsy => exact .inl ⟨Bool.eq_false_iff.2 hfalsy, rfl⟩

/-! ## Changing elements -/

theorem slot_changeIn_of_ne {change : Document → Document} {other : String} (e : Value)
    (hchange : ∀ d, Document.field? (change d) other = Document.field? d other) :
    slot other (changeIn change field id e) = slot other e := by
  cases e with
  | dict e =>
    rw [changeIn_dict]
    simp only [slot]
    split
    · rw [hchange]
    · rfl
  | _ => rfl

/-- Changing a field of the elements of a list is not seen in another field. -/
theorem slotView_changeIn_of_ne {change : Document → Document} {other : String}
    (hchange : ∀ d, Document.field? (change d) other = Document.field? d other)
    (inside inside' : Option Value) (items : List Value) :
    slotView other inside (some (.list (items.map (changeIn change field id)))) =
      slotView other inside' (some (.list items)) := by
  have hslots : slot other ∘ changeIn change field id = slot other :=
    funext fun e => slot_changeIn_of_ne e hchange
  simp only [slotView, List.map_map, hslots]

end DocumentMapper.Sync
