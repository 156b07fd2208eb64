import DocumentMapper.Dates
import DocumentMapper.Document.AtPath
import DocumentMapper.Document.Merge
import DocumentMapper.Proofs.Outcome
import Mathlib.Data.List.Forall2
import Mathlib.Data.Set.Defs

/-!
# The moments in a value

Which moments a value holds depends on how far one looks. The database is sent the parts of
dictionaries, lists and tuples; a record among them can be opened as well. Keys are not looked at,
since those of stored documents are texts.

What holds of all moments of some documents holds of the documents that are made of their parts.
Taking the dates of a value on a clock of UTC gives the same instants in the same places.
-/

namespace DocumentMapper

open Calendar Outcome

/-- How far one looks into a value. -/
inductive Reach where
  /-- Through dictionaries, lists and tuples. -/
  | parts
  /-- Through the data of records too. -/
  | records

namespace Value

mutual

/-- The moments in a value, in order. -/
@[simp] def moments (reach : Reach) : Value → List Moment
  | moment m => [m]
  | list items => momentsOfItems reach items
  | tuple items => momentsOfItems reach items
  | dict entries => momentsOfEntries reach entries
  | record _ data stored _ =>
    match reach with
    | .parts => []
    | .records => momentsOfEntries reach data ++ momentsOfEntries reach stored
  | _ => []

@[simp] def momentsOfItems (reach : Reach) : List Value → List Moment
  | [] => []
  | v :: rest => moments reach v ++ momentsOfItems reach rest

@[simp] def momentsOfEntries (reach : Reach) : List (Value × Value) → List Moment
  | [] => []
  | (_, v) :: rest => moments reach v ++ momentsOfEntries reach rest

end

/-- Every moment in a value has a property. -/
def All (reach : Reach) (p : Moment → Prop) (v : Value) : Prop :=
  ∀ m ∈ v.moments reach, p m

end Value

/-- Every moment in a document has a property. -/
def Document.All (reach : Reach) (p : Moment → Prop) (d : Document) : Prop :=
  ∀ e ∈ d, e.2.All reach p

variable {reach : Reach} {p : Moment → Prop} {v w : Value} {d es : Document}

namespace Value

theorem momentsOfItems_eq (items : List Value) :
    momentsOfItems reach items = items.flatMap (moments reach) := by
  induction items with
  | nil => rfl
  | cons v rest ih => rw [momentsOfItems, List.flatMap_cons, ih]

theorem momentsOfEntries_eq (d : Document) :
    momentsOfEntries reach d = d.flatMap fun e => e.2.moments reach := by
  induction d with
  | nil => rfl
  | cons e rest ih => rw [momentsOfEntries, List.flatMap_cons, ih]

theorem all_of_moments (h : v.moments reach = []) : v.All reach p := by
  simp [All, h]

@[simp] theorem all_null : All reach p null := all_of_moments rfl
@[simp] theorem all_bool (b : Bool) : All reach p (bool b) := all_of_moments rfl
@[simp] theorem all_int (n : Int) : All reach p (int n) := all_of_moments rfl
@[simp] theorem all_float (x : Float) : All reach p (float x) := all_of_moments rfl
@[simp] theorem all_text (s : String) : All reach p (text s) := all_of_moments rfl

@[simp] theorem all_moment {m : Moment} : All reach p (moment m) ↔ p m := by
  simp [All]

@[simp] theorem all_list {items : List Value} :
    All reach p (list items) ↔ ∀ v ∈ items, v.All reach p := by
  simp only [All, moments, momentsOfItems_eq, List.mem_flatMap]
  exact ⟨fun h v hv m hm => h m ⟨v, hv, hm⟩, fun h m ⟨v, hv, hm⟩ => h v hv m hm⟩

@[simp] theorem all_tuple {items : List Value} :
    All reach p (tuple items) ↔ ∀ v ∈ items, v.All reach p :=
  all_list

@[simp] theorem all_dict : All reach p (dict d) ↔ d.All reach p := by
  simp only [All, Document.All, moments, momentsOfEntries_eq, List.mem_flatMap]
  exact ⟨fun h e he m hm => h m ⟨e, he, hm⟩, fun h m ⟨e, he, hm⟩ => h e he m hm⟩

@[simp] theorem all_record {model : String} {data stored : Document} {restored : Bool} :
    All .records p (record model data stored restored) ↔
      data.All .records p ∧ stored.All .records p := by
  rw [← all_dict, ← all_dict]
  simp only [All, moments, List.mem_append, or_imp, forall_and]

end Value

namespace Document

@[simp] theorem all_nil : Document.All reach p [] :=
  fun _ he => absurd he List.not_mem_nil

@[simp] theorem all_cons {k : Value} :
    Document.All reach p ((k, v) :: d) ↔ v.All reach p ∧ d.All reach p :=
  List.forall_mem_cons

end Document

namespace Value

@[simp] theorem all_single {key : String} : (single key v).All reach p ↔ v.All reach p := by
  simp [single]

@[simp] theorem all_ofEntries {entries : List (String × Value)} :
    (ofEntries entries).All reach p ↔ ∀ e ∈ entries, e.2.All reach p := by
  simp only [ofEntries, all_dict, Document.All, List.forall_mem_map]

theorem all_entries (hv : v.All reach p) : v.entries.All reach p := by
  cases v with
  | dict d => exact all_dict.1 hv
  | _ => exact Document.all_nil

theorem all_of_entriesFor {operation : String} (hv : v.All reach p)
    (h : v.entriesFor operation = .ok d) : d.All reach p := by
  unfold entriesFor at h
  split at h
  · cases h
    exact all_dict.1 hv
  · cases h

theorem all_orElse {fallback : Value} (hv : v.All reach p) (hfallback : fallback.All reach p) :
    (v.orElse fallback).All reach p := by
  unfold Value.orElse
  split
  · exact hv
  · exact hfallback

end Value

namespace Document

namespace All

theorem get? (h : d.All reach p) {key : Value} (hv : d.get? key = some v) : v.All reach p := by
  unfold Document.get? at hv
  obtain ⟨e, he, rfl⟩ := Option.map_eq_some_iff.1 hv
  exact h e (List.mem_of_find?_eq_some he)

theorem field? (h : d.All reach p) {name : String} (hv : d.field? name = some v) :
    v.All reach p :=
  h.get? hv

theorem fieldOrNull (h : d.All reach p) (name : String) : (d.fieldOrNull name).All reach p := by
  unfold Document.fieldOrNull
  cases hv : d.field? name with
  | none => exact Value.all_null
  | some v => exact h.field? hv

theorem put (h : d.All reach p) (hv : v.All reach p) (key : Value) :
    (Document.put key v d).All reach p := by
  induction d with
  | nil => exact all_cons.2 ⟨hv, all_nil⟩
  | cons e rest ih =>
    obtain ⟨hold, hrest⟩ := all_cons.1 h
    unfold Document.put
    split
    · exact all_cons.2 ⟨hv, hrest⟩
    · exact all_cons.2 ⟨hold, ih hrest⟩

theorem putField (h : d.All reach p) (hv : v.All reach p) (name : String) :
    (d.putField name v).All reach p :=
  h.put hv _

theorem erase (h : d.All reach p) (key : Value) : (d.erase key).All reach p :=
  fun e he => h e (List.mem_of_mem_filter he)

theorem eraseField (h : d.All reach p) (name : String) : (d.eraseField name).All reach p :=
  h.erase _

theorem append (h : d.All reach p) (hes : es.All reach p) :
    Document.All reach p (d ++ es) :=
  List.forall_mem_append.2 ⟨h, hes⟩

theorem update (h : d.All reach p) (hes : es.All reach p) : (d.update es).All reach p := by
  induction es generalizing d with
  | nil => exact h
  | cons e rest ih =>
    obtain ⟨hv, hrest⟩ := all_cons.1 hes
    exact ih (h.put hv e.1) hrest

theorem ofEntries (hes : es.All reach p) : (Document.ofEntries es).All reach p :=
  all_nil.update hes

mutual

theorem mergeValue : ∀ (v : Value) (old : Option Value), v.All reach p →
    (∀ v ∈ old, v.All reach p) → (Document.mergeValue old v).All reach p
  | .dict es, old, hv, hold => by
    unfold Document.mergeValue
    split
    · exact Value.all_dict.2
        (merge es _ (Value.all_dict.1 (hold _ rfl)) (Value.all_dict.1 hv))
    · exact hv
  | .null, _, hv, _ | .bool _, _, hv, _ | .int _, _, hv, _ | .float _, _, hv, _
  | .text _, _, hv, _ | .moment _, _, hv, _ | .pattern _, _, hv, _ | .objectId _, _, hv, _
  | .list _, _, hv, _ | .tuple _, _, hv, _ | .stage _ _, _, hv, _ | .model _, _, hv, _
  | .record _ _ _ _, _, hv, _ => hv

theorem merge : ∀ (es d : Document), d.All reach p → es.All reach p → (d.merge es).All reach p
  | [], _, h, _ => h
  | (key, v) :: rest, d, h, hes => by
    obtain ⟨hv, hrest⟩ := all_cons.1 hes
    unfold Document.merge
    exact merge rest _ (h.put (mergeValue v _ hv fun _ hold => h.get? hold) key) hrest

end

end All

end Document

/-! ## Clocks of UTC -/

/-- A clock of UTC shows the moment, and its instant is one of some. -/
def Calendar.Moment.ShowsUtc (instants : Set Int) (m : Moment) : Prop :=
  m.offset = some 0 ∧ m.instant ∈ instants

/-- The same instant on a clock of UTC. -/
def Calendar.Moment.SameInUtc (m u : Moment) : Prop :=
  u.offset = some 0 ∧ u.instant = m.instant

theorem Calendar.Moment.sameInUtc_of_toUtc {m u : Moment} (h : m.toUtc = .ok u) :
    m.SameInUtc u := by
  unfold Moment.toUtc at h
  split at h
  · rename_i found
    cases h
    exact (instant_of_utc? found).symm
  · cases h

/-- A moment on a clock of UTC is on one already. -/
theorem Calendar.Moment.toUtc_self {m : Moment} (h : m.offset = some 0) : m.toUtc = .ok m := by
  obtain ⟨wall, offset, hwall, hoffset⟩ := m
  obtain rfl : offset = some 0 := h
  have hutc : utc? wall = some ⟨wall, some 0, hwall, hoffset⟩ :=
    dif_pos ⟨Int.natCast_nonneg wall, Int.ofNat_lt.2 hwall⟩
  have hinstant : instant ⟨wall, some 0, hwall, hoffset⟩ = wall := Int.sub_zero _
  rw [toUtc, toUtc?, hinstant, hutc]

namespace Value

/-- The instants of the moments that the database would be sent with a value. -/
def instants (v : Value) : List Int :=
  (v.moments .parts).map Moment.instant

theorem instants_list (items : List Value) : (list items).instants = items.flatMap instants := by
  simp only [instants, moments, momentsOfItems_eq, List.map_flatMap]
  rfl

/-- The value names no other instants. -/
def Within (instants : Set Int) : Value → Prop :=
  All .parts fun m => m.instant ∈ instants

/-- Every moment that the database would be sent with the value is on a clock of UTC and shows one
of the instants. -/
def OnUtc (instants : Set Int) : Value → Prop :=
  All .parts (Moment.ShowsUtc instants)

/-- Every moment in the value, also in records, is on a clock of UTC and shows one of the
instants. -/
def Settled (instants : Set Int) : Value → Prop :=
  All .records (Moment.ShowsUtc instants)

theorem OnUtc.within {I : Set Int} (h : v.OnUtc I) : v.Within I :=
  fun m hm => (h m hm).2

mutual

theorem moments_sublist : ∀ v : Value, (v.moments .parts).Sublist (v.moments .records)
  | .dict entries => momentsOfEntries_sublist entries
  | .list items => momentsOfItems_sublist items
  | .tuple items => momentsOfItems_sublist items
  | .record _ _ _ _ => List.nil_sublist _
  | .null | .bool _ | .int _ | .float _ | .text _ | .moment _ | .pattern _ | .objectId _
  | .stage _ _ | .model _ => List.Sublist.refl _

theorem momentsOfItems_sublist : ∀ items : List Value,
    (momentsOfItems .parts items).Sublist (momentsOfItems .records items)
  | [] => .slnil
  | v :: rest => (moments_sublist v).append (momentsOfItems_sublist rest)

theorem momentsOfEntries_sublist : ∀ entries : List (Value × Value),
    (momentsOfEntries .parts entries).Sublist (momentsOfEntries .records entries)
  | [] => .slnil
  | (_, v) :: rest => (moments_sublist v).append (momentsOfEntries_sublist rest)

end

theorem Settled.onUtc {I : Set Int} (h : v.Settled I) : v.OnUtc I :=
  fun m hm => h m ((moments_sublist v).subset hm)

mutual

/-- Every moment becomes the same instant on a clock of UTC, and nothing else is a moment. -/
theorem sameInUtc_of_normalizeDates : ∀ v w : Value, v.normalizeDates = .ok w →
    List.Forall₂ Moment.SameInUtc (v.moments .parts) (w.moments .parts)
  | .moment m, w, h => by
    unfold normalizeDates at h
    obtain ⟨u, hu, hw⟩ := bind_eq_ok.1 h
    cases hw
    exact .cons (Moment.sameInUtc_of_toUtc hu) .nil
  | .dict entries, w, h => by
    unfold normalizeDates at h
    obtain ⟨d, hd, hw⟩ := bind_eq_ok.1 h
    cases hw
    exact sameInUtc_of_normalizeEntries entries d hd
  | .list items, w, h => by
    unfold normalizeDates at h
    obtain ⟨ws, hws, hw⟩ := bind_eq_ok.1 h
    cases hw
    exact sameInUtc_of_normalizeItems items ws hws
  | .tuple items, w, h => by
    unfold normalizeDates at h
    obtain ⟨ws, hws, hw⟩ := bind_eq_ok.1 h
    cases hw
    exact sameInUtc_of_normalizeItems items ws hws
  | .null, _, h | .bool _, _, h | .int _, _, h | .float _, _, h | .text _, _, h
  | .pattern _, _, h | .objectId _, _, h | .stage _ _, _, h | .model _, _, h
  | .record _ _ _ _, _, h => by
    cases h
    exact .nil

theorem sameInUtc_of_normalizeItems : ∀ items ws : List Value, normalizeItems items = .ok ws →
    List.Forall₂ Moment.SameInUtc (momentsOfItems .parts items) (momentsOfItems .parts ws)
  | [], ws, h => by
    cases h
    exact .nil
  | v :: rest, ws, h => by
    unfold normalizeItems at h
    obtain ⟨w, hw, h⟩ := bind_eq_ok.1 h
    obtain ⟨ws', hws, h⟩ := bind_eq_ok.1 h
    cases h
    exact List.rel_append (sameInUtc_of_normalizeDates v w hw)
      (sameInUtc_of_normalizeItems rest ws' hws)

theorem sameInUtc_of_normalizeEntries : ∀ entries es : List (Value × Value),
    normalizeEntries entries = .ok es →
    List.Forall₂ Moment.SameInUtc (momentsOfEntries .parts entries) (momentsOfEntries .parts es)
  | [], es, h => by
    cases h
    exact .nil
  | (k, v) :: rest, es, h => by
    unfold normalizeEntries at h
    obtain ⟨w, hw, h⟩ := bind_eq_ok.1 h
    obtain ⟨es', hes, h⟩ := bind_eq_ok.1 h
    cases h
    exact List.rel_append (sameInUtc_of_normalizeDates v w hw)
      (sameInUtc_of_normalizeEntries rest es' hes)

end

theorem onUtc_of_normalizeDates {I : Set Int} (hv : v.Within I) (h : v.normalizeDates = .ok w) :
    w.OnUtc I := by
  have hsame := sameInUtc_of_normalizeDates v w h
  unfold Within All at hv
  unfold OnUtc All
  generalize v.moments .parts = ms at hv hsame
  generalize w.moments .parts = us at hsame ⊢
  induction hsame with
  | nil => exact fun _ hu => absurd hu List.not_mem_nil
  | cons hfirst _ ih =>
    obtain ⟨hutc, hinstant⟩ := hfirst
    obtain ⟨hm, hrest⟩ := List.forall_mem_cons.1 hv
    exact List.forall_mem_cons.2 ⟨⟨hutc, hinstant ▸ hm⟩, ih hrest⟩

theorem instants_of_normalizeDates (h : v.normalizeDates = .ok w) : w.instants = v.instants := by
  have hsame := sameInUtc_of_normalizeDates v w h
  unfold instants
  generalize v.moments .parts = ms at hsame ⊢
  generalize w.moments .parts = us at hsame ⊢
  induction hsame with
  | nil => rfl
  | cons hfirst _ ih => rw [List.map_cons, List.map_cons, hfirst.2, ih]

end Value

end DocumentMapper
