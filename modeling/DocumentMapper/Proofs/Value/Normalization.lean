import DocumentMapper.Proofs.Value.Moments

/-!
# The UTC normal form of a value

Two values are related when they differ in nothing but the clocks of their moments, and the clocks
of the second are clocks of UTC that show the same instants. Taking the dates of a value on a clock
of UTC finds the one value that it is related to. There is none exactly if some clock of known
distance from UTC shows an instant outside of the calendar, and a value whose clocks are clocks of
UTC is related to itself.
-/

namespace DocumentMapper

open Calendar Outcome

namespace Calendar.Moment

variable {m u : Moment}

/-- The instant lies in the years 1 to 9999 of UTC. -/
def InCalendar (m : Moment) : Prop :=
  0 ≤ m.instant ∧ m.instant < span

theorem toUtc_eq_ok_iff : m.toUtc = .ok u ↔ m.SameInUtc u := by
  constructor
  · exact sameInUtc_of_toUtc
  · intro h
    obtain ⟨hoffset, hinstant⟩ := h
    rw [toUtc, toUtc?, ← hinstant]
    exact toUtc_self hoffset

theorem exists_sameInUtc_iff : (∃ u, m.SameInUtc u) ↔ m.InCalendar := by
  simp only [← toUtc_eq_ok_iff]
  rw [InCalendar, ← utc?_isSome, toUtc, toUtc?]
  cases utc? m.instant with
  | none => simp
  | some u => simp

/-- A clock of unknown distance counts as one of UTC, and so it cannot leave the calendar. -/
theorem inCalendar_of_offset (h : m.offset = none) : m.InCalendar := by
  have hwall := m.wall_lt
  simp only [InCalendar, instant, h, Option.getD_none]
  omega

theorem toUtc_eq_error {e : Error} (h : m.toUtc = .error e) : e = .dateRange := by
  unfold toUtc at h
  split at h
  · cases h
  · cases h
    rfl

end Calendar.Moment

namespace Value

/-- The values that are neither moments nor looked into. -/
def IsLeaf : Value → Prop
  | moment _ | dict _ | list _ | tuple _ => False
  | _ => True

mutual

/-- The second value has the shape, the keys in their order and the leaves of the first, and in the
place of every moment the same instant on a clock of UTC. -/
inductive InUtc : Value → Value → Prop
  | moment {m u : Moment} : m.SameInUtc u → InUtc (.moment m) (.moment u)
  | dict {entries es : List (Value × Value)} : EntriesInUtc entries es →
      InUtc (.dict entries) (.dict es)
  | list {items ws : List Value} : ItemsInUtc items ws → InUtc (.list items) (.list ws)
  | tuple {items ws : List Value} : ItemsInUtc items ws → InUtc (.tuple items) (.tuple ws)
  | leaf {v : Value} : v.IsLeaf → InUtc v v

inductive ItemsInUtc : List Value → List Value → Prop
  | nil : ItemsInUtc [] []
  | cons {v w : Value} {rest ws : List Value} : InUtc v w → ItemsInUtc rest ws →
      ItemsInUtc (v :: rest) (w :: ws)

inductive EntriesInUtc : List (Value × Value) → List (Value × Value) → Prop
  | nil : EntriesInUtc [] []
  | cons {k v w : Value} {rest es : List (Value × Value)} : InUtc v w → EntriesInUtc rest es →
      EntriesInUtc ((k, v) :: rest) ((k, w) :: es)

end

theorem inUtc_moment_iff {m : Moment} {w : Value} :
    InUtc (.moment m) w ↔ ∃ u, m.SameInUtc u ∧ .moment u = w := by
  constructor
  · intro h
    cases h with
    | moment h => exact ⟨_, h, rfl⟩
    | leaf h => exact h.elim
  · rintro ⟨u, h, rfl⟩
    exact .moment h

theorem inUtc_dict_iff {entries : List (Value × Value)} {w : Value} :
    InUtc (.dict entries) w ↔ ∃ es, EntriesInUtc entries es ∧ .dict es = w := by
  constructor
  · intro h
    cases h with
    | dict h => exact ⟨_, h, rfl⟩
    | leaf h => exact h.elim
  · rintro ⟨es, h, rfl⟩
    exact .dict h

theorem inUtc_list_iff {items : List Value} {w : Value} :
    InUtc (.list items) w ↔ ∃ ws, ItemsInUtc items ws ∧ .list ws = w := by
  constructor
  · intro h
    cases h with
    | list h => exact ⟨_, h, rfl⟩
    | leaf h => exact h.elim
  · rintro ⟨ws, h, rfl⟩
    exact .list h

theorem inUtc_tuple_iff {items : List Value} {w : Value} :
    InUtc (.tuple items) w ↔ ∃ ws, ItemsInUtc items ws ∧ .tuple ws = w := by
  constructor
  · intro h
    cases h with
    | tuple h => exact ⟨_, h, rfl⟩
    | leaf h => exact h.elim
  · rintro ⟨ws, h, rfl⟩
    exact .tuple h

theorem itemsInUtc_cons_iff {v : Value} {rest l : List Value} :
    ItemsInUtc (v :: rest) l ↔ ∃ w ws, InUtc v w ∧ ItemsInUtc rest ws ∧ w :: ws = l := by
  constructor
  · intro h
    cases h with
    | cons hfirst hrest => exact ⟨_, _, hfirst, hrest, rfl⟩
  · rintro ⟨w, ws, hfirst, hrest, rfl⟩
    exact .cons hfirst hrest

theorem entriesInUtc_cons_iff {k v : Value} {rest l : List (Value × Value)} :
    EntriesInUtc ((k, v) :: rest) l ↔
      ∃ w es, InUtc v w ∧ EntriesInUtc rest es ∧ (k, w) :: es = l := by
  constructor
  · intro h
    cases h with
    | cons hfirst hrest => exact ⟨_, _, hfirst, hrest, rfl⟩
  · rintro ⟨w, es, hfirst, hrest, rfl⟩
    exact .cons hfirst hrest

/-! ## What the conversion finds -/

mutual

theorem normalizeDates_iff_inUtc : ∀ v w : Value, v.normalizeDates = .ok w ↔ InUtc v w
  | .moment m, w => by
    rw [normalizeDates, bind_eq_ok, inUtc_moment_iff]
    simp only [Moment.toUtc_eq_ok_iff, Except.ok.injEq]
  | .dict entries, w => by
    rw [normalizeDates, bind_eq_ok, inUtc_dict_iff]
    simp only [normalizeEntries_iff_inUtc entries, Except.ok.injEq]
  | .list items, w => by
    rw [normalizeDates, bind_eq_ok, inUtc_list_iff]
    simp only [normalizeItems_iff_inUtc items, Except.ok.injEq]
  | .tuple items, w => by
    rw [normalizeDates, bind_eq_ok, inUtc_tuple_iff]
    simp only [normalizeItems_iff_inUtc items, Except.ok.injEq]
  | .null, w | .bool _, w | .int _, w | .float _, w | .text _, w | .pattern _, w | .objectId _, w
  | .stage _ _, w | .model _, w | .record _ _ _ _, w => by
    constructor
    · intro h
      cases h
      exact .leaf trivial
    · intro h
      cases h
      rfl

theorem normalizeItems_iff_inUtc : ∀ items ws : List Value,
    normalizeItems items = .ok ws ↔ ItemsInUtc items ws
  | [], ws => by
    constructor
    · intro h
      cases h
      exact .nil
    · intro h
      cases h
      rfl
  | v :: rest, ws => by
    simp only [normalizeItems, bind_eq_ok, itemsInUtc_cons_iff, normalizeDates_iff_inUtc v,
      normalizeItems_iff_inUtc rest, Except.ok.injEq, exists_and_left]

theorem normalizeEntries_iff_inUtc : ∀ entries es : List (Value × Value),
    normalizeEntries entries = .ok es ↔ EntriesInUtc entries es
  | [], es => by
    constructor
    · intro h
      cases h
      exact .nil
    · intro h
      cases h
      rfl
  | (k, v) :: rest, es => by
    simp only [normalizeEntries, bind_eq_ok, entriesInUtc_cons_iff, normalizeDates_iff_inUtc v,
      normalizeEntries_iff_inUtc rest, Except.ok.injEq, exists_and_left]

end

mutual

theorem exists_inUtc_iff : ∀ v : Value, (∃ w, InUtc v w) ↔ v.All .parts Moment.InCalendar
  | .moment m => by
    rw [all_moment, ← Moment.exists_sameInUtc_iff]
    simp [inUtc_moment_iff]
  | .dict entries => by
    rw [all_dict, ← exists_entriesInUtc_iff entries]
    simp [inUtc_dict_iff]
  | .list items => by
    rw [all_list, ← exists_itemsInUtc_iff items]
    simp [inUtc_list_iff]
  | .tuple items => by
    rw [all_tuple, ← exists_itemsInUtc_iff items]
    simp [inUtc_tuple_iff]
  | .null | .bool _ | .int _ | .float _ | .text _ | .pattern _ | .objectId _
  | .stage _ _ | .model _ | .record _ _ _ _ =>
    iff_of_true ⟨_, .leaf trivial⟩ (all_of_moments rfl)

theorem exists_itemsInUtc_iff : ∀ items : List Value,
    (∃ ws, ItemsInUtc items ws) ↔ ∀ v ∈ items, v.All .parts Moment.InCalendar
  | [] => iff_of_true ⟨[], .nil⟩ fun _ hv => absurd hv List.not_mem_nil
  | v :: rest => by
    rw [List.forall_mem_cons, ← exists_inUtc_iff v, ← exists_itemsInUtc_iff rest]
    constructor
    · rintro ⟨_, h⟩
      obtain ⟨w, ws, hfirst, hrest, -⟩ := itemsInUtc_cons_iff.1 h
      exact ⟨⟨w, hfirst⟩, ⟨ws, hrest⟩⟩
    · rintro ⟨⟨w, hfirst⟩, ⟨ws, hrest⟩⟩
      exact ⟨_, .cons hfirst hrest⟩

theorem exists_entriesInUtc_iff : ∀ entries : List (Value × Value),
    (∃ es, EntriesInUtc entries es) ↔ Document.All .parts Moment.InCalendar entries
  | [] => iff_of_true ⟨[], .nil⟩ Document.all_nil
  | (k, v) :: rest => by
    rw [Document.all_cons, ← exists_inUtc_iff v, ← exists_entriesInUtc_iff rest]
    constructor
    · rintro ⟨_, h⟩
      obtain ⟨w, es, hfirst, hrest, -⟩ := entriesInUtc_cons_iff.1 h
      exact ⟨⟨w, hfirst⟩, ⟨es, hrest⟩⟩
    · rintro ⟨⟨w, hfirst⟩, ⟨es, hrest⟩⟩
      exact ⟨_, .cons hfirst hrest⟩

end

mutual

/-- A value is its own normal form exactly if all its clocks are clocks of UTC. -/
theorem inUtc_self_iff : ∀ v : Value, InUtc v v ↔ v.All .parts fun m => m.offset = some 0
  | .moment m => by
    simp [inUtc_moment_iff, Moment.SameInUtc]
  | .dict entries => by
    rw [all_dict, ← entriesInUtc_self_iff entries]
    simp [inUtc_dict_iff]
  | .list items => by
    rw [all_list, ← itemsInUtc_self_iff items]
    simp [inUtc_list_iff]
  | .tuple items => by
    rw [all_tuple, ← itemsInUtc_self_iff items]
    simp [inUtc_tuple_iff]
  | .null | .bool _ | .int _ | .float _ | .text _ | .pattern _ | .objectId _
  | .stage _ _ | .model _ | .record _ _ _ _ =>
    iff_of_true (.leaf trivial) (all_of_moments rfl)

theorem itemsInUtc_self_iff : ∀ items : List Value,
    ItemsInUtc items items ↔ ∀ v ∈ items, v.All .parts fun m => m.offset = some 0
  | [] => iff_of_true .nil fun _ hv => absurd hv List.not_mem_nil
  | v :: rest => by
    rw [List.forall_mem_cons, ← inUtc_self_iff v, ← itemsInUtc_self_iff rest]
    simp [itemsInUtc_cons_iff]

theorem entriesInUtc_self_iff : ∀ entries : List (Value × Value),
    EntriesInUtc entries entries ↔ Document.All .parts (fun m => m.offset = some 0) entries
  | [] => iff_of_true .nil Document.all_nil
  | (k, v) :: rest => by
    rw [Document.all_cons, ← inUtc_self_iff v, ← entriesInUtc_self_iff rest]
    simp [entriesInUtc_cons_iff]

end

mutual

theorem dateRange_of_normalizeDates {e : Error} :
    ∀ v : Value, v.normalizeDates = .error e → e = .dateRange
  | .moment m, h => by
    unfold normalizeDates at h
    rcases bind_eq_error.1 h with h | ⟨_, _, h⟩
    · exact Moment.toUtc_eq_error h
    · cases h
  | .dict entries, h => by
    unfold normalizeDates at h
    rcases bind_eq_error.1 h with h | ⟨_, _, h⟩
    · exact dateRange_of_normalizeEntries entries h
    · cases h
  | .list items, h | .tuple items, h => by
    unfold normalizeDates at h
    rcases bind_eq_error.1 h with h | ⟨_, _, h⟩
    · exact dateRange_of_normalizeItems items h
    · cases h
  | .null, h | .bool _, h | .int _, h | .float _, h | .text _, h | .pattern _, h | .objectId _, h
  | .stage _ _, h | .model _, h | .record _ _ _ _, h => by
    cases h

theorem dateRange_of_normalizeItems {e : Error} :
    ∀ items : List Value, normalizeItems items = .error e → e = .dateRange
  | [], h => by
    cases h
  | v :: rest, h => by
    unfold normalizeItems at h
    rcases bind_eq_error.1 h with h | ⟨_, _, h⟩
    · exact dateRange_of_normalizeDates v h
    · rcases bind_eq_error.1 h with h | ⟨_, _, h⟩
      · exact dateRange_of_normalizeItems rest h
      · cases h

theorem dateRange_of_normalizeEntries {e : Error} :
    ∀ entries : List (Value × Value), normalizeEntries entries = .error e → e = .dateRange
  | [], h => by
    cases h
  | (k, v) :: rest, h => by
    unfold normalizeEntries at h
    rcases bind_eq_error.1 h with h | ⟨_, _, h⟩
    · exact dateRange_of_normalizeDates v h
    · rcases bind_eq_error.1 h with h | ⟨_, _, h⟩
      · exact dateRange_of_normalizeEntries rest h
      · cases h

end

/-- The moments of a normal form stand on clocks of UTC. -/
theorem onUtc_of_inUtc {v w : Value} (h : InUtc v w) :
    w.All .parts fun u => u.offset = some 0 := by
  intro u hu
  have hsame := sameInUtc_of_normalizeDates v w ((normalizeDates_iff_inUtc v w).2 h)
  obtain ⟨i, hi, rfl⟩ := List.mem_iff_getElem.1 hu
  have hi' : i < (v.moments .parts).length := by
    rw [hsame.length_eq]
    exact hi
  exact (hsame.get hi' hi).1

/-- Either a clock of known distance from UTC shows an instant that has no date in UTC, and the
conversion fails for that reason; or there is no such clock, and the value becomes one that differs
from it in nothing but its clocks, shows the same instants on clocks of UTC, and is left as it is by
the conversion. -/
theorem normalizeDates_normalForm (v : Value) :
    (v.normalizeDates = .error .dateRange ∧
      ∃ m ∈ v.moments .parts, m.offset ≠ none ∧ ¬ m.InCalendar) ∨
    ((∀ m ∈ v.moments .parts, m.InCalendar) ∧
      ∃ w, v.normalizeDates = .ok w ∧ InUtc v w ∧
        (∀ u ∈ w.moments .parts, u.offset = some 0) ∧ w.normalizeDates = .ok w) := by
  cases h : v.normalizeDates with
  | error e =>
    left
    obtain rfl := dateRange_of_normalizeDates v h
    have hnone : ¬ v.All .parts Moment.InCalendar := by
      rw [← exists_inUtc_iff]
      rintro ⟨w, hw⟩
      rw [(normalizeDates_iff_inUtc v w).2 hw] at h
      cases h
    simp only [All, not_forall] at hnone
    obtain ⟨m, hm, hout⟩ := hnone
    have hoffset : m.offset ≠ none := by
      intro hoffset
      exact hout (Moment.inCalendar_of_offset hoffset)
    exact ⟨rfl, m, hm, hoffset, hout⟩
  | ok w =>
    right
    have hw : InUtc v w := (normalizeDates_iff_inUtc v w).1 h
    have hutc := onUtc_of_inUtc hw
    have hagain : InUtc w w := (inUtc_self_iff w).2 hutc
    exact ⟨(exists_inUtc_iff v).1 ⟨w, hw⟩, w, rfl, hw, hutc,
      (normalizeDates_iff_inUtc w w).2 hagain⟩

end Value

end DocumentMapper
