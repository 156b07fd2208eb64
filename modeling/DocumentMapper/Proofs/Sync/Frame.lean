import DocumentMapper.Proofs.Model.Saving
import DocumentMapper.Proofs.Sync.RefreshColumn
import DocumentMapper.Proofs.Sync.Transition
import Mathlib.Data.List.Forall2

/-!
# What refreshing leaves alone

Nothing but copies of the record should change. What is looked at is the view of a column: its
value, its list, or what each element of a list has in a field. It is spared if everything in it
that is no copy is there afterwards, in its place.

Without an identity anything that carries none is taken for a copy, even what is not there. And in
a list the payload goes by its own identity, which need not lead to a copy. A column is spared
exactly if what is written over is a copy all the same.
-/

namespace DocumentMapper.Sync

open EmbeddedList

variable {mode : Mode} {id payload v : Value} {d d' : Document} {column other top field : String}
  {items : List Value}

/-! ## Spared columns -/

/-- Unless it is a copy, it is still there. -/
def Kept (id : Value) (found found' : Option Value) : Prop :=
  (∃ v, found = some v ∧ IsCopy id v) ∨ found' = found

def KeptSlot (id : Value) : Slot → Slot → Prop
  | .field found, .field found' => Kept id found found'
  | .other e, .other e' => e' = e
  | _, _ => False

/-- What is no copy is still there, in its place, and no list is longer or shorter. -/
def Spared (id : Value) : View → View → Prop
  | .one found, .one found' => Kept id found found'
  | .elements items, .elements items' =>
    items.Forall₂ (fun e e' => Kept id (some e) (some e')) items'
  | .loose found, .loose found' => Kept id found found'
  | .loose found, .elements _ => ∃ v, found = some v ∧ IsCopy id v
  | .slots slots, .slots slots' => slots.Forall₂ (KeptSlot id) slots'
  | .bare found _, .bare found' _ => found' = found
  | _, _ => False

/-- Whether what is taken for a copy is one, or the payload already, so that it may be written
over. -/
def HitsCopies (id payload : Value) : View → Prop
  | .one found => isCopyOf id (found.getD .null) = true →
      ∃ v, found = some v ∧ (IsCopy id v ∨ v = payload)
  | .elements items => items.any (isCopyOf id) = true →
      ∃ i v, positionOf? payload items = some i ∧ items[i]? = some v ∧ (IsCopy id v ∨ v = payload)
  | .loose found => isCopyOf id (found.getD .null) = true → ∃ v, found = some v ∧ IsCopy id v
  | .slots slots => ∀ found, .field found ∈ slots → isCopyOf id (found.getD .null) = true →
      ∃ v, found = some v ∧ (IsCopy id v ∨ v = payload)
  | .bare _ _ => True

/-! ## Nothing changed -/

theorem Kept.refl (id : Value) (found : Option Value) : Kept id found found :=
  .inr rfl

theorem KeptSlot.refl (id : Value) (a : Slot) : KeptSlot id a a := by
  cases a with
  | field found => exact Kept.refl id found
  | other e => exact rfl

theorem Spared.refl (id : Value) (w : View) : Spared id w w := by
  cases w with
  | one found => exact Kept.refl id found
  | elements items => exact List.forall₂_same.2 fun e _ => Kept.refl id (some e)
  | loose found => exact Kept.refl id found
  | slots slots => exact List.forall₂_same.2 fun a _ => KeptSlot.refl id a
  | bare found inside => exact rfl

theorem forall₂_set_iff {α : Type} {R : α → α → Prop} (hrefl : ∀ a, R a a) {l : List α} {i : Nat}
    {a b : α} (hi : l[i]? = some a) : l.Forall₂ R (l.set i b) ↔ R a b := by
  induction l generalizing i with
  | nil => cases hi
  | cons first rest ih =>
    cases i with
    | zero =>
      cases hi
      rw [List.set_cons_zero, List.forall₂_cons]
      exact and_iff_left (List.forall₂_same.2 fun a _ => hrefl a)
    | succ i =>
      rw [List.set_cons_succ, List.forall₂_cons, ih hi]
      exact and_iff_right (hrefl first)

/-! ## One column -/

theorem spared_single (h : refreshColumn .single id payload d column = .ok d') :
    Spared id (view .single d column) (view .single d' column) ↔
      HitsCopies id payload (view .single d column) := by
  rw [view_single, view_single]
  obtain ⟨found, hfound, ⟨hno, rfl⟩ | ⟨htaken, hput⟩⟩ := refreshColumn_single h
  · rw [found?_of_column? hfound]
    refine iff_of_true (Spared.refl id _) fun htaken => ?_
    exact absurd (hno.symm.trans htaken) Bool.false_ne_true
  · have hread : d'.column? column = .ok (some payload) :=
      Path.get?_put_self (Document.putColumn_eq_ok.1 hput)
    rw [found?_of_column? hfound, found?_of_column? hread]
    constructor
    · rintro (⟨v, hv, hcopied⟩ | hsame) -
      · exact ⟨v, hv, .inl hcopied⟩
      · exact ⟨payload, hsame.symm, .inr rfl⟩
    · intro hhits
      obtain ⟨v, hv, hcopied | hsame⟩ := hhits htaken
      · exact .inl ⟨v, hv, hcopied⟩
      · subst hsame
        exact .inr hv.symm

theorem Reassociation.spared_iff {found : Option Value} {v' : Value}
    (h : Reassociation id payload (found.getD .null) v') :
    Spared id (listView found) (listView (some v')) ↔
      HitsCopies id payload (listView found) := by
  cases found with
  | none =>
    refine iff_of_false ?_ fun hhits => ?_
    · cases h
      rintro ⟨v, hv, -⟩
      cases hv
    · cases h with
      | started htaken =>
        obtain ⟨v, hv, -⟩ := hhits htaken
        cases hv
  | some v =>
    cases h with
    | @replaced items i hany hi =>
      have hlt : i < items.length := (List.findIdx?_eq_some_iff_getElem.1 hi).1
      have hat : items[i]? = some items[i] := List.getElem?_eq_getElem hlt
      refine (forall₂_set_iff (fun e => Kept.refl id (some e)) hat).trans ?_
      constructor
      · rintro (⟨c, hc, hcopied⟩ | hsame) -
        · exact ⟨i, _, hi, hat, .inl (Option.some.inj hc ▸ hcopied)⟩
        · exact ⟨i, _, hi, hat, .inr (Option.some.inj hsame).symm⟩
      · intro hhits
        obtain ⟨j, c, hj, hc, hcopied | hsame⟩ := hhits hany
        · cases hi.symm.trans hj
          exact .inl ⟨_, rfl, Option.some.inj (hat.symm.trans hc) ▸ hcopied⟩
        · cases hi.symm.trans hj
          exact .inr (by rw [Option.some.inj (hat.symm.trans hc), hsame])
    | @appended items hany hi =>
      refine iff_of_false (fun hs => ?_) fun hhits => ?_
      · have hlength := List.Forall₂.length_eq hs
        simp at hlength
      · obtain ⟨i, -, hi', -⟩ := hhits hany
        cases hi.symm.trans hi'
    | started htaken hlist _ =>
      have hne : ∀ items, some v ≠ some (.list items) := by
        rintro items ⟨⟩
        cases hlist
      rw [listView_of_ne hne]
      exact ⟨fun hs _ => hs, fun hhits => hhits htaken⟩
    | keyed htaken _ _ =>
      have hcopied := isCopy_dict.2 htaken
      exact iff_of_true (.inl ⟨_, rfl, hcopied⟩) fun _ => ⟨_, rfl, hcopied⟩

theorem hitsCopies_of_not_refers {found : Option Value}
    (h : refers id (found.getD .null) = false) : HitsCopies id payload (listView found) := by
  by_cases hlist : ∃ items, found = some (.list items)
  · obtain ⟨items, rfl⟩ := hlist
    exact fun hany => absurd (h.symm.trans hany) Bool.false_ne_true
  · have hne : ∀ items, found ≠ some (.list items) := fun items hitems => hlist ⟨items, hitems⟩
    rw [listView_of_ne hne]
    intro htaken
    rw [refers_of_isList (isList_getD hne)] at h
    exact absurd (h.symm.trans htaken) Bool.false_ne_true

theorem spared_plain (hc : parts column = (top, none)) (hp : payload.isNull = false)
    (h : refreshColumn .many id payload d column = .ok d') :
    Spared id (view .many d column) (view .many d' column) ↔
      HitsCopies id payload (view .many d column) := by
  rw [view_plain hc, view_plain hc]
  rcases refreshColumn_plain hc hp h with ⟨hno, rfl⟩ | ⟨-, v, hv, rfl⟩
  · exact iff_of_true (Spared.refl id _) (hitsCopies_of_not_refers hno)
  · rw [Document.field?_putField_self]
    exact hv.spared_iff

theorem slot_changeIn_iff (e : Value) :
    KeptSlot id (slot field e) (slot field (changeIn (·.putField field payload) field id e)) ↔
      ∀ found, slot field e = .field found → isCopyOf id (found.getD .null) = true →
        ∃ v, found = some v ∧ (IsCopy id v ∨ v = payload) := by
  cases e with
  | dict e =>
    rw [changeIn_dict]
    simp only [slot]
    split
    · next hholds =>
      rw [Document.field?_putField_self]
      constructor
      · rintro hkept found hfound -
        cases hfound
        rcases hkept with ⟨v, hv, hcopied⟩ | hsame
        · exact ⟨v, hv, .inl hcopied⟩
        · exact ⟨payload, hsame.symm, .inr rfl⟩
      · intro hhits
        obtain ⟨v, hv, hcopied | rfl⟩ := hhits _ rfl hholds
        · exact .inl ⟨v, hv, hcopied⟩
        · exact .inr hv.symm
    · next hholds =>
      refine iff_of_true (Kept.refl id _) fun found hfound htaken => ?_
      cases hfound
      exact absurd htaken hholds
  | _ => exact iff_of_true rfl (by simp [slot])

theorem spared_nested (hc : parts column = (top, some field))
    (h : refreshColumn .many id payload d column = .ok d') :
    Spared id (view .many d column) (view .many d' column) ↔
      HitsCopies id payload (view .many d column) := by
  rw [view_nested hc, view_nested hc]
  rcases refreshColumn_nested hc h with ⟨rfl, hno⟩ | ⟨items, hitems, rfl⟩
  · refine iff_of_true (Spared.refl id _) ?_
    by_cases hlist : ∃ items, d'.field? top = some (.list items)
    · obtain ⟨items, hitems⟩ := hlist
      rw [hitems]
      intro found hmem htaken
      obtain ⟨e, he, hslot⟩ := List.mem_map.1 hmem
      have hholds := hno items hitems e he
      cases e with
      | dict e =>
        cases hslot
        exact absurd (hholds.symm.trans htaken) Bool.false_ne_true
      | _ => cases hslot
    · rw [slotView_of_ne fun items hitems => hlist ⟨items, hitems⟩]
      trivial
  · rw [hitems, Document.field?_putField_self]
    simp only [slotView, Spared, HitsCopies, List.map_map]
    rw [List.forall₂_map_left_iff, List.forall₂_map_right_iff, List.forall₂_same]
    simp only [Function.comp_apply, slot_changeIn_iff, List.mem_map]
    constructor
    · rintro hall found ⟨e, he, hslot⟩
      exact hall e he found hslot
    · exact fun hall e he found hslot => hall found ⟨e, he, hslot⟩

/-- A column is spared exactly if what is written over is a copy. -/
theorem refreshColumn_spared_iff (hp : payload.isNull = false)
    (h : refreshColumn mode id payload d column = .ok d') :
    Spared id (view mode d column) (view mode d' column) ↔
      HitsCopies id payload (view mode d column) := by
  cases mode with
  | single => exact spared_single h
  | many =>
    rcases hc : parts column with ⟨top, _ | field⟩
    · exact spared_plain hc hp h
    · exact spared_nested hc h

/-! ## Other columns -/

/-- Whether a path leads past a column. In a rule for many it may lead to another field of the
elements of the same list. -/
def Outside (mode : Mode) (column : String) (path : Path) : Prop :=
  match mode, parts column with
  | .single, _ => Path.apart (Path.ofText column) path = true
  | .many, (top, none) => ∃ key rest, path = key :: rest ∧ key ≠ top
  | .many, (top, some field) =>
    (∃ key rest, path = key :: rest ∧ key ≠ top) ∨
      ∃ position name rest, path = top :: position :: name :: rest ∧ name ≠ field

/-- In a rule for many a path leads past a column by another field, or by another field of the
elements of the list. -/
theorem outside_many_cases {path : Path} (ho : Outside .many column path) :
    (∃ key rest, path = key :: rest ∧ key ≠ (parts column).1) ∨
      ∃ top field position name rest, parts column = (top, some field) ∧
        path = top :: position :: name :: rest ∧ name ≠ field := by
  rcases hc : parts column with ⟨top, _ | field⟩
  · simp only [Outside, hc] at ho
    exact .inl ho
  · simp only [Outside, hc] at ho
    obtain hother | ⟨position, name, rest, hpath, hname⟩ := ho
    · exact .inl hother
    · exact .inr ⟨top, field, position, name, rest, rfl, hpath, hname⟩

theorem get?_changeIn_of_ne {change : Document → Document} {name : String}
    (hother : ∀ e : Document, (change e).field? name = e.field? name) (rest : Path) (e : Value) :
    Path.get? (changeIn change field id e) (name :: rest) = Path.get? e (name :: rest) := by
  cases e with
  | dict e =>
    rw [changeIn_dict]
    split
    · rw [Path.get?_dict_cons, Path.get?_dict_cons, hother]
    · rfl
  | _ => rfl

theorem get?_refreshColumn_of_outside {path : Path} (hp : payload.isNull = false)
    (ho : Outside mode column path) (h : refreshColumn mode id payload d column = .ok d') :
    Path.get? (.dict d') path = Path.get? (.dict d) path := by
  cases mode with
  | single =>
    obtain ⟨found, -, ⟨-, rfl⟩ | ⟨-, hput⟩⟩ := refreshColumn_single h
    · rfl
    · exact Path.get?_put_of_apart ho (Document.putColumn_eq_ok.1 hput)
  | many =>
    obtain ⟨key, rest, rfl, hkey⟩ | ⟨top, field, position, name, rest, hc, rfl, hname⟩ :=
      outside_many_cases ho
    · rw [Path.get?_dict_cons, Path.get?_dict_cons, refreshColumn_many_other hp h hkey]
    · rcases refreshColumn_nested hc h with ⟨rfl, -⟩ | ⟨items, hitems, rfl⟩
      · rfl
      · rw [Path.get?_dict_cons, Path.get?_dict_cons, Document.field?_putField_self, hitems]
        have hother (e : Document) : (e.putField field payload).field? name = e.field? name :=
          Document.field?_putField_of_ne hname
        exact Path.get?_list_map (get?_changeIn_of_ne hother rest) items position

/-! ## All columns -/

section Run

variable {before after : List String} {d₁ d₂ : Document}

theorem view_before (hp : payload.isNull = false) (ha : ∀ other ∈ before, Apart mode other column)
    (h : AtTurn (refreshColumn mode id payload) before column after d d₁ d₂ d') :
    view mode d₁ column = view mode d column :=
  foldlM_keeps (fun other hother _ _ hs => view_refreshColumn_of_apart hp (ha other hother) hs)
    h.reached

theorem view_after (hp : payload.isNull = false) (ha : ∀ other ∈ after, Apart mode other column)
    (h : AtTurn (refreshColumn mode id payload) before column after d d₁ d₂ d') :
    view mode d' column = view mode d₂ column :=
  foldlM_keeps (fun other hother _ _ hs => view_refreshColumn_of_apart hp (ha other hother) hs)
    h.rest

end Run

theorem get?_refresh_of_outside {columns : List String} {path : Path} (hp : payload.isNull = false)
    (ho : ∀ column ∈ columns, Outside mode column path)
    (h : refresh mode columns id payload d = .ok d') :
    Path.get? (.dict d') path = Path.get? (.dict d) path :=
  foldlM_keeps (f := fun d => Path.get? (.dict d) path)
    (fun column hc _ _ hs => get?_refreshColumn_of_outside hp (ho column hc) hs) h

/-- What is embedded is never null: what a record is without takes its place. -/
theorem isNull_of_payload {σ : Type} {rule : Rule σ} {schema : Schema} {r : Record}
    (h : rule.payload schema r = .ok payload) : payload.isNull = false := by
  have hembedded {v : Value} (hv : r.embeddedValue schema = .ok v) : v.isNull = false := by
    unfold Record.embeddedValue at hv
    cases he : r.embedded schema with
    | error e =>
      rw [he] at hv
      cases hv
    | ok d =>
      rw [he] at hv
      cases hv
      rfl
  unfold Rule.payload at h
  split at h
  · exact hembedded h
  · obtain ⟨v, -, h⟩ := Outcome.bind_eq_ok.1 h
    split at h
    · exact hembedded h
    · next hnull =>
      cases h
      simpa using hnull

variable {σ : Type}

/-- What is no copy of the record in a column of an updated target is spared at the turn of the
column exactly if nothing else is taken for one then. The turns of other columns make no difference
to a column that lies apart from them. Nothing that a path leads to outside of the columns is
changed, but for the time that saving writes. -/
theorem changeAndSave_refresh_spared_iff (ctx : Context σ) (depth : Nat) (rule : Rule σ)
    (r : Record) (payload : Value) (target after : Record) (s s' : σ)
    (hpayload : rule.payload (schemaOf ctx r) r = .ok payload)
    (h : (changeAndSave (Lifecycle.cascade ctx depth)
      (refresh rule.mode rule.columns r.id payload)
      { SaveOptions.standard with cast := false }).run (target, s) = (.ok (), after, s')) :
    ∃ d, refresh rule.mode rule.columns r.id payload target.data = .ok d ∧
      (∀ first column rest, rule.columns = first ++ column :: rest → ∃ d₁ d₂,
        AtTurn (refreshColumn rule.mode r.id payload) first column rest target.data d₁ d₂ d ∧
        (Spared r.id (view rule.mode d₁ column) (view rule.mode d₂ column) ↔
          HitsCopies r.id payload (view rule.mode d₁ column)) ∧
        ((∀ other ∈ first, Apart rule.mode other column) →
          view rule.mode d₁ column = view rule.mode target.data column) ∧
        ((∀ other ∈ rest, Apart rule.mode other column) →
          view rule.mode d column = view rule.mode d₂ column)) ∧
      (∀ path, (∀ column ∈ rule.columns, Outside rule.mode column path) →
        Path.get? (.dict d) path = Path.get? (.dict target.data) path) ∧
      (ctx.LeavesRecords → { target with data := d }.isNew = false →
        Lifecycle.Stamped (ctx.model target.model) d after.data) := by
  have hp := isNull_of_payload hpayload
  obtain ⟨d, hd, hsave⟩ := changeAndSave_eq_ok h
  refine ⟨d, hd, fun first column rest hcolumns => ?_,
    fun path ho => get?_refresh_of_outside hp ho hd, fun hl hnew => ?_⟩
  · unfold refresh at hd
    rw [hcolumns] at hd
    obtain ⟨d₁, d₂, hat⟩ := exists_atTurn hd
    exact ⟨d₁, d₂, hat, refreshColumn_spared_iff hp hat.own, fun ha => view_before hp ha hat,
      fun ha => view_after hp ha hat⟩
  · cases depth with
    | zero => cases hsave
    | succ depth => exact Lifecycle.stamped_of_save hl (.inl rfl) rfl hnew hsave

/-! ### Orders of a customer who is known and of one who is not -/

def orderRule : Rule Unit :=
  .sample "Order" ["customer"] .single

def orderOf (customer : Value) : Record :=
  .ofData "Order" [(.text "_id", .int 5), (.text "id", .int 31), (.text "customer", customer)]

def known (name : String) : Record :=
  .ofData "Customer" [(.text "id", .int 1), (.text "name", .text name)]

/-- A customer without an identity. -/
def anonymous : Record :=
  .ofData "Customer" [(.text "name", .text "Ann")]

theorem changeAndSave_refresh_spared_iff_known :
    let target := orderOf (.dict (known "Anne").data)
    let payload := Value.dict (known "Ann").data
    orderRule.payload (schemaOf .quiet (known "Ann")) (known "Ann") = .ok payload ∧
    ∃ d after, (changeAndSave (Lifecycle.cascade .quiet 1)
        (refresh orderRule.mode orderRule.columns (known "Ann").id payload)
        { SaveOptions.standard with cast := false }).run (target, ()) = (.ok (), after, ()) ∧
      Spared (known "Ann").id (view .single target.data "customer") (view .single d "customer") ∧
      Lifecycle.Stamped (Context.quiet.model "Order") d after.data := by
  intro target payload
  refine ⟨rfl, ?_⟩
  obtain ⟨d, hd, hspared, -, hsaved⟩ := changeAndSave_refresh_spared_iff .quiet 1 orderRule
    (known "Ann") payload target _ () _ rfl rfl
  obtain ⟨d₁, d₂, ⟨hfirst, -, hrest⟩, hiff, -, -⟩ := hspared [] "customer" [] rfl
  cases hfirst
  cases hrest
  refine ⟨d, _, rfl, hiff.2 fun _ => ?_, hsaved ?_ ?_⟩
  · exact ⟨_, rfl, .inl ⟨_, rfl, rfl⟩⟩
  · intro id event s ls s' hls l hl
    cases hls
    cases hl
  · cases hd
    rfl

/-- An order whose customer is a text is given the anonymous one in its place. -/
theorem not_spared_anonymous :
    let target := orderOf (.text "walk-in")
    let payload := Value.dict anonymous.data
    orderRule.payload (schemaOf .quiet anonymous) anonymous = .ok payload ∧
    refresh orderRule.mode orderRule.columns anonymous.id payload target.data =
      .ok (orderOf payload).data ∧
    ¬ Spared anonymous.id (view .single target.data "customer")
      (view .single (orderOf payload).data "customer") := by
  refine ⟨rfl, rfl, ?_⟩
  rintro (⟨v, hv, d, rfl, -⟩ | hsame)
  · cases hv
  · cases hsame

end DocumentMapper.Sync
