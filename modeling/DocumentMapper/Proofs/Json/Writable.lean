import DocumentMapper.Json.Writer
import DocumentMapper.Proofs.Json.Native

/-!
# What can be written as JSON

Only a key can keep a value from being written: one that is no text and does not become one. A
dictionary whose keys are texts is as good as its values. So whatever was read from JSON can be
written again.
-/

namespace DocumentMapper.Json

/-- Whether a value can be written as JSON. -/
def Writable (v : Value) : Prop :=
  ∃ text, write v = .ok text

theorem writable_int (n : Int) : Writable (.int n) :=
  ⟨_, rfl⟩

theorem writable_text (s : String) : Writable (.text s) :=
  ⟨_, rfl⟩

/-- A list can be written exactly if its elements can. -/
theorem writable_list {items : List Value} :
    Writable (.list items) ↔ ∀ v ∈ items, Writable v := by
  have hitems : Writable (.list items) ↔ ∃ written, writeItems items = .ok written := by
    simp [Writable, write, Outcome.exists_bind_eq_ok]
  rw [hitems]
  clear hitems
  induction items with
  | nil => simp [writeItems]
  | cons v rest ih =>
    have hstep : (∃ written, writeItems (v :: rest) = .ok written) ↔
        Writable v ∧ ∃ written, writeItems rest = .ok written := by
      simp [Writable, writeItems, Outcome.exists_bind_eq_ok]
    rw [List.forall_mem_cons]
    exact hstep.trans (and_congr_right' ih)

theorem writable_texts (texts : List String) : Writable (.list (texts.map .text)) :=
  writable_list.2 (List.forall_mem_map.2 fun s _ => writable_text s)

/-- A dictionary with texts for keys can be written exactly if the values can. -/
theorem writable_dict {d : Document} (hkeys : ∀ e ∈ d, ∃ key, e.1 = .text key) :
    Writable (.dict d) ↔ ∀ e ∈ d, Writable e.2 := by
  have hentries : Writable (.dict d) ↔ ∃ written, writeEntries d = .ok written := by
    simp [Writable, write, Outcome.exists_bind_eq_ok]
  rw [hentries]
  clear hentries
  induction d with
  | nil => simp [writeEntries]
  | cons e rest ih =>
    obtain ⟨k, v⟩ := e
    obtain ⟨⟨key, rfl⟩, hrest⟩ := List.forall_mem_cons.1 hkeys
    have hstep : (∃ written, writeEntries ((.text key, v) :: rest) = .ok written) ↔
        Writable v ∧ ∃ written, writeEntries rest = .ok written := by
      simp [Writable, writeEntries, keyText, Outcome.exists_bind_eq_ok]
    rw [List.forall_mem_cons]
    exact hstep.trans (and_congr_right' (ih hrest))

theorem writable_ofEntries {entries : List (String × Value)} :
    Writable (.ofEntries entries) ↔ ∀ e ∈ entries, Writable e.2 := by
  have hkeys : ∀ e ∈ entries.map fun e => (Value.text e.1, e.2), ∃ key, e.1 = .text key :=
    List.forall_mem_map.2 fun e _ => ⟨e.1, rfl⟩
  exact (writable_dict hkeys).trans List.forall_mem_map

theorem Native.writable {v : Value} (h : Native v) : Writable v := by
  induction h with
  | null | bool | int | float | text => exact ⟨_, rfl⟩
  | list _ ih => exact writable_list.2 ih
  | dict hkeys _ ih => exact (writable_dict hkeys).2 ih

/-- What was read from JSON can be written as JSON. -/
theorem writable_of_read {s : String} {v : Value} (h : read s = .ok v) : Writable v :=
  (native_of_read h).writable

end DocumentMapper.Json
