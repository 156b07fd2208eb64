import DocumentMapper.Proofs.Sync.Frame
import DocumentMapper.Proofs.Sync.ReleaseColumn

/-!
# What releasing leaves alone

When copies are taken out of a document, everything that is no copy should stay. A list may lose
elements, so what is compared there are the elements that are no copies, in their order.

Three things are lost or made up all the same. Without an identity of the record, values that have
none either are taken for copies. Of a list column the first element with the identity of what the
record embeds is taken out, which need not be a copy. And where a list with a field in its elements
is looked for and nothing is there, an empty list is put.
-/

namespace DocumentMapper.Sync

variable {mode : Mode} {id v : Value} {embedded : Except Error Value} {d d' : Document}
  {column other top field : String} {items : List Value}

theorem isCopy_iff : IsCopy id v ↔ v.isDict = true ∧ isCopyOf id v = true := by
  cases v with
  | dict d => simp [isCopy_dict, isCopyOf, copyId, Value.isDict]
  | _ => simp [IsCopy, Value.isDict]

instance (id v : Value) : Decidable (IsCopy id v) :=
  decidable_of_iff _ isCopy_iff.symm

/-- The elements of a list that are no copies. -/
def bystanders (id : Value) (items : List Value) : List Value :=
  items.filter fun e => !decide (IsCopy id e)

/-- Whether everything in a column but copies is still there. -/
def Preserved (id : Value) : View → View → Prop
  | .one found, .one found' => Kept id found found'
  | .elements items, .elements items' => bystanders id items' = bystanders id items
  | .loose found, .loose found' => found' = found
  | .slots slots, .slots slots' => List.Forall₂ (KeptSlot id) slots slots'
  | .bare found _, .bare found' _ => found' = found
  | _, _ => False

/-- Whether nothing that counts as present is where a list should be. -/
def View.Vacant : View → Prop
  | .bare found _ => (found.getD .null).isTruthy = false
  | _ => False

/-- Whether what is taken out of a column of a rule for many is a copy, and no list is put in the
place of nothing. -/
def View.Harmless (id : Value) (embedded : Except Error Value) : View → Prop
  | .elements items => items.any (isCopyOf id) = true →
      ∀ i v, taken? embedded items = some i → items[i]? = some v → IsCopy id v
  | .slots row => ∀ v, .field (some v) ∈ row → isCopyOf id v = true → IsCopy id v
  | .bare found _ => (found.getD .null).isTruthy = true
  | .one _ | .loose _ => True

/-- Whether releasing a column takes out nothing but copies. What has no key is not taken out. -/
def Harmless (mode : Mode) (id : Value) (embedded : Except Error Value) (d : Document)
    (column : String) : Prop :=
  match mode with
  | .single => Path.Keyed (.dict d) (Path.ofText column) →
      ∀ v, d.column? column = .ok (some v) → isCopyOf id v = true → IsCopy id v
  | .many => (view .many d column).Harmless id embedded

theorem harmless_many :
    Harmless .many id embedded d column ↔ (view .many d column).Harmless id embedded := Iff.rfl

theorem Preserved.refl (id : Value) (w : View) : Preserved id w w := by
  cases w with
  | one found => exact Kept.refl id found
  | elements items => exact rfl
  | loose found => exact rfl
  | slots slots => exact List.forall₂_same.2 fun a _ => KeptSlot.refl id a
  | bare found inside => exact rfl

theorem Preserved.vacant {w w' : View} (h : Preserved id w w') (hw : w.Vacant) : w'.Vacant := by
  cases w with
  | bare found inside =>
    cases w' with
    | bare found' inside' =>
      obtain rfl : found' = found := h
      exact hw
    | _ => exact h.elim
  | _ => exact hw.elim

theorem not_harmless_of_vacant (h : (view mode d column).Vacant) :
    ¬ Harmless mode id embedded d column := by
  cases mode with
  | single =>
    rw [view_single] at h
    exact h.elim
  | many =>
    rw [harmless_many]
    intro hharmless
    generalize view .many d column = w at h hharmless
    cases w with
    | bare found inside => exact Bool.false_ne_true (h.symm.trans hharmless)
    | _ => exact h.elim

/-! ## One column -/

theorem kept_none_iff : Kept id (some v) none ↔ IsCopy id v := by
  simp [Kept]

theorem preserved_single_iff (h : releaseColumn .single id embedded d column = .ok d') :
    Preserved id (view .single d column) (view .single d' column) ↔
      Harmless .single id embedded d column := by
  rw [view_single, view_single]
  obtain ⟨found, hfound, ⟨hno, rfl⟩ | ⟨htaken, herase⟩⟩ := releaseColumn_single h
  · refine iff_of_true (Preserved.refl id _) fun _ v hv htaken => ?_
    cases hfound.symm.trans hv
    exact absurd (hno.symm.trans htaken) Bool.false_ne_true
  · rw [found?_of_column? hfound]
    cases found with
    | none =>
      have hgone : found? d' column = none := by
        rcases Path.get?_erase_cases herase (Path.ofText column) with
          hsame | hnone | ⟨rest, c, c', -, hc, -, -⟩
        · exact found?_of_column? (hsame.trans hfound)
        · exact found?_of_column? hnone
        · cases hfound.symm.trans hc
      rw [hgone]
      refine iff_of_true (Kept.refl id none) fun _ v hv => ?_
      cases hfound.symm.trans hv
    | some c =>
      rcases Path.get?_erase_self (Path.ofText_ne_nil column) hfound herase with
        ⟨hkeyed, hgone⟩ | ⟨hno, hstill⟩
      · rw [found?_of_column? hgone]
        refine kept_none_iff.trans ⟨fun hcopied _ v hv _ => ?_, fun hharmless => ?_⟩
        · cases hfound.symm.trans hv
          exact hcopied
        · exact hharmless hkeyed c hfound htaken
      · rw [found?_of_column? hstill]
        exact iff_of_true (Kept.refl id _) fun hkeyed => absurd hkeyed hno

theorem filter_eraseIdx_iff {α : Type} {p : α → Bool} {l : List α} {i : Nat} {a : α}
    (hi : l[i]? = some a) : (l.eraseIdx i).filter p = l.filter p ↔ p a = false := by
  induction l generalizing i with
  | nil => cases hi
  | cons first rest ih =>
    cases i with
    | zero =>
      cases hi
      rw [List.eraseIdx_cons_zero]
      cases hp : p a with
      | true => simp [hp]
      | false => simp [hp]
    | succ i =>
      rw [List.eraseIdx_cons_succ, List.filter_cons, List.filter_cons]
      split
      · rw [List.cons_inj_right, ih hi]
      · exact ih hi

theorem bystanders_remaining_iff : bystanders id (remaining embedded items) = bystanders id items ↔
    ∀ i v, taken? embedded items = some i → items[i]? = some v → IsCopy id v := by
  unfold remaining
  cases ht : taken? embedded items with
  | none => exact iff_of_true rfl (by simp)
  | some i =>
    cases hi : items[i]? with
    | none =>
      have hle : items.length ≤ i := List.getElem?_eq_none_iff.1 hi
      refine iff_of_true ?_ fun j v hj hv => ?_
      · simp only [List.eraseIdx_of_length_le hle]
      · cases hj
        cases hi.symm.trans hv
    | some c =>
      unfold bystanders
      rw [filter_eraseIdx_iff hi, Bool.not_eq_false', decide_eq_true_iff]
      constructor
      · intro hcopied j v hj hv
        cases hj
        cases hi.symm.trans hv
        exact hcopied
      · exact fun hall => hall i c rfl hi

theorem preserved_plain_iff (hc : parts column = (top, none))
    (h : releaseColumn .many id embedded d column = .ok d') :
    Preserved id (view .many d column) (view .many d' column) ↔
      Harmless .many id embedded d column := by
  rw [harmless_many, view_plain hc, view_plain hc]
  rcases releaseColumn_plain hc h with
    ⟨hno, rfl⟩ | ⟨htaken, -, ⟨hlist, rfl⟩ | ⟨items, hitems, hleft⟩⟩
  · refine iff_of_true (Preserved.refl id _) ?_
    by_cases hlist : ∃ items, d'.field? top = some (.list items)
    · obtain ⟨items, hitems⟩ := hlist
      rw [Document.fieldOrNull, hitems] at hno
      rw [hitems]
      exact fun htaken => absurd (hno.symm.trans htaken) Bool.false_ne_true
    · rw [listView_of_ne fun items hitems => hlist ⟨items, hitems⟩]
      trivial
  · rw [listView_of_ne hlist]
    exact iff_of_true (Preserved.refl id _) trivial
  · rw [Document.fieldOrNull, hitems] at htaken
    rw [hitems, hleft]
    exact bystanders_remaining_iff.trans ⟨fun hcopied _ => hcopied, fun hcopied => hcopied htaken⟩

theorem keptSlot_changeIn_iff (e : Value) :
    KeptSlot id (slot field e) (slot field (changeIn (·.eraseField field) field id e)) ↔
      ∀ v, slot field e = .field (some v) → isCopyOf id v = true → IsCopy id v := by
  cases e with
  | dict e =>
    rw [changeIn_dict]
    simp only [slot]
    split
    · next hholds =>
      rw [holdsIn, Document.fieldOrNull] at hholds
      rw [Document.field?_eraseField_self]
      cases hv : Document.field? e field with
      | none => exact iff_of_true (Kept.refl id none) (by simp)
      | some c =>
        rw [hv] at hholds
        refine kept_none_iff.trans ⟨fun hcopied v hv _ => ?_, fun hall => hall c rfl hholds⟩
        cases hv
        exact hcopied
    · next hholds =>
      rw [holdsIn, Document.fieldOrNull] at hholds
      refine iff_of_true (Kept.refl id _) fun v hv htaken => ?_
      rw [Slot.field.injEq] at hv
      rw [hv] at hholds
      exact absurd htaken hholds
  | _ => exact iff_of_true rfl (by simp [slot])

theorem preserved_nested_iff (hc : parts column = (top, some field))
    (h : releaseColumn .many id embedded d column = .ok d') :
    Preserved id (view .many d column) (view .many d' column) ↔
      Harmless .many id embedded d column := by
  rw [harmless_many, view_nested hc, view_nested hc]
  rcases releaseColumn_nested hc h with
    ⟨items, hitems, rfl⟩ | ⟨hlist, ⟨hfalsy, rfl⟩ | ⟨htruthy, rfl⟩⟩
  · rw [hitems, Document.field?_putField_self]
    simp only [slotView, Preserved, View.Harmless, List.map_map]
    rw [List.forall₂_map_left_iff, List.forall₂_map_right_iff, List.forall₂_same]
    simp only [Function.comp_apply, keptSlot_changeIn_iff, List.mem_map]
    constructor
    · rintro hall v ⟨e, he, hslot⟩
      exact hall e he v hslot
    · exact fun hall e he v hslot => hall v ⟨e, he, hslot⟩
  · rw [Document.field?_putField_self, slotView_of_ne hlist]
    refine iff_of_false (fun hkept => hkept) fun htruthy => ?_
    exact Bool.false_ne_true (hfalsy.symm.trans htruthy)
  · rw [slotView_of_ne hlist]
    exact iff_of_true (Preserved.refl id _) htruthy

/-- A column keeps all that is no copy exactly if nothing else is taken for one. -/
theorem releaseColumn_preserved_iff (h : releaseColumn mode id embedded d column = .ok d') :
    Preserved id (view mode d column) (view mode d' column) ↔
      Harmless mode id embedded d column := by
  cases mode with
  | single => exact preserved_single_iff h
  | many =>
    rcases hc : parts column with ⟨top, _ | field⟩
    · exact preserved_plain_iff hc h
    · exact preserved_nested_iff hc h

/-! ## Other columns -/

theorem view_releaseColumn_of_apart (ha : Apart mode other column)
    (h : releaseColumn mode id embedded d other = .ok d') :
    view mode d' column = view mode d column ∨
      ((view mode d column).Vacant ∧ view mode d' column = .slots []) := by
  obtain hsame | ⟨found, hfalsy, hbare, hempty⟩ := view_releaseColumn_cases ha h
  · exact .inl hsame
  · rw [hbare]
    exact .inr ⟨hfalsy, hempty⟩

theorem harmless_releaseColumn_of_apart (ha : Apart mode other column)
    (hvacant : ¬ (view mode d column).Vacant)
    (h : releaseColumn mode id embedded d other = .ok d') :
    Harmless mode id embedded d' column ↔ Harmless mode id embedded d column := by
  have hview := (view_releaseColumn_of_apart ha h).resolve_right fun h => hvacant h.1
  cases mode with
  | many => rw [harmless_many, harmless_many, hview]
  | single =>
    obtain ⟨-, -, ⟨-, rfl⟩ | ⟨-, herase⟩⟩ := releaseColumn_single h
    · rfl
    · have hread : d'.column? column = d.column? column := Path.get?_erase_of_apart ha herase
      unfold Harmless
      rw [hread]
      constructor
      · intro hharmless hkeyed v hv
        exact hharmless ((Path.keyed_erase_iff herase (hread.trans hv)).2 hkeyed) v hv
      · intro hharmless hkeyed v hv
        exact hharmless ((Path.keyed_erase_iff herase (hread.trans hv)).1 hkeyed) v hv

/-- After its own turn there is a list where a column looks for one, or something else that counts
as present. -/
theorem not_vacant_releaseColumn (h : releaseColumn mode id embedded d column = .ok d') :
    ¬ (view mode d' column).Vacant := by
  cases mode with
  | single =>
    rw [view_single]
    exact fun hvacant => hvacant
  | many =>
    rcases hc : parts column with ⟨top, _ | field⟩
    · rw [view_plain hc]
      unfold listView
      split <;> exact fun hvacant => hvacant
    · rw [view_nested hc]
      rcases releaseColumn_nested hc h with
        ⟨items, -, rfl⟩ | ⟨hlist, ⟨-, rfl⟩ | ⟨htruthy, rfl⟩⟩
      · rw [Document.field?_putField_self]
        exact fun hvacant => hvacant
      · rw [Document.field?_putField_self]
        exact fun hvacant => hvacant
      · rw [slotView_of_ne hlist]
        exact fun hfalsy => Bool.false_ne_true (hfalsy.symm.trans htruthy)

/-! ## All columns -/

section Run

variable {columns before after : List String} {d₁ d₂ : Document}

theorem view_release_of_apart (ha : ∀ other ∈ columns, Apart mode other column)
    (h : columns.foldlM (releaseColumn mode id embedded) d = .ok d') :
    view mode d' column = view mode d column ∨
      ((view mode d column).Vacant ∧ view mode d' column = .slots []) := by
  refine foldlM_preserves (P := fun e => view mode e column = view mode d column ∨
    ((view mode d column).Vacant ∧ view mode e column = .slots [])) ?_ (.inl rfl) h
  intro other hother e e' hs he
  have hstep := view_releaseColumn_of_apart (ha other hother) hs
  obtain hsame | ⟨hvacant, hslots⟩ := he
  · rwa [hsame] at hstep
  · rw [hslots] at hstep
    obtain hsame' | ⟨hfalse, -⟩ := hstep
    · exact .inr ⟨hvacant, hsame'⟩
    · exact hfalse.elim

theorem harmless_release_of_apart (ha : ∀ other ∈ columns, Apart mode other column)
    (hvacant : ¬ (view mode d column).Vacant)
    (h : columns.foldlM (releaseColumn mode id embedded) d = .ok d') :
    Harmless mode id embedded d' column ↔ Harmless mode id embedded d column := by
  refine (foldlM_preserves (P := fun e => view mode e column = view mode d column ∧
    (Harmless mode id embedded e column ↔ Harmless mode id embedded d column)) ?_
    ⟨rfl, Iff.rfl⟩ h).2
  rintro other hother e e' hs ⟨hview, hharmless⟩
  have hvacant' : ¬ (view mode e column).Vacant := by rwa [hview]
  have hstep := view_releaseColumn_of_apart (ha other hother) hs
  constructor
  · exact (hstep.resolve_right fun h => hvacant' h.1).trans hview
  · exact (harmless_releaseColumn_of_apart (ha other hother) hvacant' hs).trans hharmless

/-- What a column that lies apart from all others keeps in the whole run. -/
theorem release_preserved_iff (hbefore : ∀ other ∈ before, Apart mode other column)
    (hafter : ∀ other ∈ after, Apart mode other column)
    (h : AtTurn (releaseColumn mode id embedded) before column after d d₁ d₂ d') :
    Preserved id (view mode d column) (view mode d' column) ↔
      Harmless mode id embedded d column := by
  have hlast : view mode d' column = view mode d₂ column :=
    (view_release_of_apart hafter h.rest).resolve_right
      fun hempty => not_vacant_releaseColumn h.own hempty.1
  have hown := releaseColumn_preserved_iff h.own
  rw [hlast]
  by_cases hvacant : (view mode d column).Vacant
  · refine iff_of_false (fun hkept => ?_) (not_harmless_of_vacant hvacant)
    exact not_vacant_releaseColumn h.own (hkept.vacant hvacant)
  · have hfirst := (view_release_of_apart hbefore h.reached).resolve_right fun he => hvacant he.1
    rw [hfirst] at hown
    exact hown.trans (harmless_release_of_apart hbefore hvacant h.reached)

/-! ### Paths that lead past the columns -/

/-- What a path leads to, nothing if it cannot be read. -/
def leadsTo (d : Document) (path : Path) : Option Value :=
  (Path.get? (.dict d) path).toOption.join

/-- No path leads on in an empty list. -/
theorem toOption_get?_nil (key : String) (path : Path) :
    (Path.get? (.list []) (key :: path)).toOption.join = none := by
  rw [Path.get?, Path.child?]
  split
  · cases Path.position key with
    | error e => rfl
    | ok i => rfl
  · rfl

/-- No path leads on in what does not count as present. -/
theorem leadsTo_of_isTruthy {position : String} {rest : Path}
    (hlist : ∀ items, d.field? top ≠ some (.list items))
    (h : (d.fieldOrNull top).isTruthy = false) : leadsTo d (top :: position :: rest) = none := by
  unfold leadsTo
  rw [Path.get?_dict_cons]
  rw [Document.fieldOrNull] at h
  cases hv : d.field? top with
  | none => rfl
  | some v =>
    rw [hv] at h
    cases v with
    | dict e =>
      obtain rfl : e = [] := by simpa [Value.isTruthy] using h
      rfl
    | list items => exact absurd hv (hlist items)
    | _ => rfl

theorem leadsTo_releaseColumn_of_outside {path : Path} (ho : Outside mode column path)
    (h : releaseColumn mode id embedded d column = .ok d') : leadsTo d' path = leadsTo d path := by
  cases mode with
  | single =>
    obtain ⟨-, -, ⟨-, rfl⟩ | ⟨-, herase⟩⟩ := releaseColumn_single h
    · rfl
    · rw [leadsTo, leadsTo, Path.get?_erase_of_apart ho herase]
  | many =>
    obtain ⟨key, rest, rfl, hkey⟩ | ⟨top, field, position, name, rest, hc, rfl, hname⟩ :=
      outside_many_cases ho
    · rw [leadsTo, leadsTo, Path.get?_dict_cons, Path.get?_dict_cons,
        releaseColumn_many_other h hkey]
    · rcases releaseColumn_nested hc h with
        ⟨items, hitems, rfl⟩ | ⟨hlist, ⟨hfalsy, rfl⟩ | ⟨-, rfl⟩⟩
      · rw [leadsTo, leadsTo, Path.get?_dict_cons, Path.get?_dict_cons,
          Document.field?_putField_self, hitems]
        have hother (e : Document) : (e.eraseField field).field? name = e.field? name :=
          Document.field?_eraseField_of_ne hname
        exact congrArg (fun found => found.toOption.join)
          (Path.get?_list_map (get?_changeIn_of_ne hother rest) items position)
      · rw [leadsTo_of_isTruthy hlist hfalsy, leadsTo, Path.get?_dict_cons,
          Document.field?_putField_self]
        exact toOption_get?_nil position (name :: rest)
      · rfl

/-! ### Columns that are absent -/

/-- Whether a column is absent from a document: there is nothing at its path, or, in a rule for
many, no list. -/
def Absent (mode : Mode) (d : Document) (column : String) : Prop :=
  match mode with
  | .single => d.column? column = .ok none
  | .many => d.field? (parts column).1 = none

theorem absent_single (h : releaseColumn .single id embedded d other = .ok d')
    (ha : d.column? column = .ok none) : d'.column? column = .ok none := by
  obtain ⟨-, -, ⟨-, rfl⟩ | ⟨-, herase⟩⟩ := releaseColumn_single h
  · exact ha
  · rcases Path.get?_erase_cases herase (Path.ofText column) with
      hsame | hnone | ⟨rest, c, c', -, hc, -, -⟩
    · exact hsame.trans ha
    · exact hnone
    · cases ha.symm.trans hc

/-- A list in a field stays a list. -/
theorem list_releaseColumn (h : releaseColumn .many id embedded d other = .ok d')
    (hlist : ∃ items, d.field? top = some (.list items)) :
    ∃ items, d'.field? top = some (.list items) := by
  by_cases htop : top = (parts other).1
  · subst htop
    rcases ho : parts other with ⟨top, _ | field⟩
    · rw [ho] at hlist
      rcases releaseColumn_plain ho h with ⟨-, rfl⟩ | ⟨-, -, ⟨-, rfl⟩ | ⟨items, -, hleft⟩⟩
      · exact hlist
      · exact hlist
      · exact ⟨_, hleft⟩
    · rw [ho] at hlist
      rcases releaseColumn_nested ho h with ⟨items, -, rfl⟩ | ⟨hno, -⟩
      · exact ⟨_, Document.field?_putField_self _ _ _⟩
      · obtain ⟨items, hitems⟩ := hlist
        exact absurd hitems (hno items)
  · rwa [releaseColumn_many_other h htop]

/-- A column that names a field of elements puts a list where there is none. -/
theorem list_releaseColumn_nested (ho : parts other = (top, some field))
    (h : releaseColumn .many id embedded d other = .ok d') (hnone : d.field? top = none) :
    d'.field? top = some (.list []) := by
  rcases releaseColumn_nested ho h with ⟨items, hitems, -⟩ | ⟨-, ⟨-, rfl⟩ | ⟨htruthy, -⟩⟩
  · cases hitems.symm.trans hnone
  · exact Document.field?_putField_self _ _ _
  · rw [Document.fieldOrNull, hnone] at htruthy
    cases htruthy

/-- Other columns put nothing where there is nothing. -/
theorem none_releaseColumn (ho : (parts other).1 = top → (parts other).2 = none)
    (h : releaseColumn .many id embedded d other = .ok d') (hnone : d.field? top = none) :
    d'.field? top = none := by
  by_cases htop : top = (parts other).1
  · subst htop
    have hc : parts other = ((parts other).1, none) := Prod.ext rfl (ho rfl)
    rcases releaseColumn_plain hc h with ⟨-, rfl⟩ | ⟨-, -, ⟨-, rfl⟩ | ⟨items, hitems, -⟩⟩
    · exact hnone
    · exact hnone
    · cases hitems.symm.trans hnone
  · rwa [releaseColumn_many_other h htop]

/-- A column that is absent stays absent, in a rule for many exactly if no column names a field of
the elements of its list. -/
theorem absent_release_iff (h : release mode columns id embedded d = .ok d')
    (ha : Absent mode d column) : Absent mode d' column ↔ mode = .single ∨
      ∀ other ∈ columns, (parts other).1 = (parts column).1 → (parts other).2 = none := by
  unfold release at h
  cases mode with
  | single =>
    refine iff_of_true ?_ (.inl rfl)
    exact foldlM_preserves (P := fun e => e.column? column = .ok none)
      (fun other _ e e' hs he => absent_single hs he) ha h
  | many =>
    constructor
    · intro habsent
      refine .inr fun other hother htop => ?_
      by_contra hne
      obtain ⟨field, hfield⟩ := Option.ne_none_iff_exists'.1 hne
      have ho : parts other = ((parts column).1, some field) := Prod.ext htop hfield
      obtain ⟨before, after, rfl⟩ := List.append_of_mem hother
      obtain ⟨d₁, d₂, hat⟩ := exists_atTurn h
      -- Before its turn there is nothing or a list already, and from then on a list.
      have hreached : d₁.field? (parts column).1 = none ∨
          ∃ items, d₁.field? (parts column).1 = some (.list items) := by
        refine foldlM_preserves (P := fun e => e.field? (parts column).1 = none ∨
          ∃ items, e.field? (parts column).1 = some (.list items)) ?_ (.inl ha) hat.reached
        rintro c - e e' hs (hnone | hlist)
        · by_cases hc : (parts c).1 = (parts column).1 → (parts c).2 = none
          · exact .inl (none_releaseColumn hc hs hnone)
          · obtain ⟨hctop, hcne⟩ := Classical.not_imp.1 hc
            obtain ⟨g, hg⟩ := Option.ne_none_iff_exists'.1 hcne
            exact .inr ⟨[], list_releaseColumn_nested (Prod.ext hctop hg) hs hnone⟩
        · exact .inr (list_releaseColumn hs hlist)
      have hown : ∃ items, d₂.field? (parts column).1 = some (.list items) := by
        obtain hnone | hlist := hreached
        · exact ⟨[], list_releaseColumn_nested ho hat.own hnone⟩
        · exact list_releaseColumn hat.own hlist
      obtain ⟨items, hitems⟩ : ∃ items, d'.field? (parts column).1 = some (.list items) :=
        foldlM_preserves (P := fun e => ∃ items, e.field? (parts column).1 = some (.list items))
          (fun c _ e e' hs he => list_releaseColumn hs he) hown hat.rest
      cases hitems.symm.trans habsent
    · intro hall
      have hplain := hall.resolve_left (by decide)
      exact foldlM_preserves (P := fun e => e.field? (parts column).1 = none)
        (fun other hother e e' hs he => none_releaseColumn (hplain other hother) hs he) ha h

end Run

end DocumentMapper.Sync
