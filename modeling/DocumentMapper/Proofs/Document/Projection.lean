import DocumentMapper.Model.Record
import DocumentMapper.Proofs.Path.Modify
import DocumentMapper.Proofs.Path.Writing
import DocumentMapper.Proofs.Sync.Columns

/-!
# Documents cut down to some columns

The columns that are kept are written one after another into a document that is empty at first. A
list on the way to a column becomes a dictionary of positions there, unless a list was written as a
whole before. So what stands anywhere in the result is either the very value that the document has
there, or a dictionary that leads, under each of its keys, to something of which the same is true.
Every column that is written keeps it so. It is what makes the writing succeed, and what keeps a
column from being read where the document has none.
-/

namespace DocumentMapper

namespace Path

variable {v r b c x : Value} {p q rest : Path} {key : String}

/-- Whether a value shows a part of another one: it is that value, or a dictionary whose keys lead
somewhere in that value as well, each of them to something that shows a part of what is there. -/
inductive Shows : Value → Value → Prop
  | whole (v : Value) : Shows v v
  | part {d : Document} {v : Value} :
      (∀ key c, d.field? key = some c → ∃ b, child? v key = .ok (some b)) →
      (∀ key c b, d.field? key = some c → child? v key = .ok (some b) → Shows c b) →
      Shows (.dict d) v

theorem get?_cons_of_child? (h : child? v key = .ok (some b)) (rest : Path) :
    get? v (key :: rest) = get? b rest := by
  rw [get?, h]
  rfl

theorem get?_cons_eq_some (h : get? v (key :: rest) = .ok (some x)) :
    ∃ b, child? v key = .ok (some b) ∧ get? b rest = .ok (some x) := by
  obtain ⟨found, hchild, hrest⟩ := Outcome.bind_eq_ok.1 h
  cases found with
  | none => cases hrest
  | some b => exact ⟨b, hchild, hrest⟩

/-- Writing a part of a value into that value below a key leaves the value there. -/
theorem put_container_of_get? (h : get? b rest = .ok (some x)) :
    put x rest (container (some b)) = .ok b := by
  by_cases hrest : rest = []
  · subst hrest
    cases h
    rfl
  · rw [container_of_get? hrest h]
    exact put_of_get?_self h

namespace Shows

theorem nothing (v : Value) : Shows (.dict []) v := by
  apply part
  · intro key c h
    cases h
  · intro key c b h
    cases h

/-- What shows a part of a value and is not that value is a dictionary. -/
theorem exists_dict (h : Shows r v) (hne : r ≠ v) : ∃ d : Document, r = .dict d ∧
    (∀ key c, d.field? key = some c → ∃ b, child? v key = .ok (some b)) ∧
    ∀ key c b, d.field? key = some c → child? v key = .ok (some b) → Shows c b := by
  cases h with
  | whole => exact absurd rfl hne
  | part hleads hshows => exact ⟨_, rfl, hleads, hshows⟩

/-- Where a value has nothing, there is nothing to show. -/
theorem get?_eq_none (h : Shows r v) (hp : get? v p = .ok none) : get? r p = .ok none := by
  induction p generalizing r v with
  | nil => cases hp
  | cons key rest ih =>
    cases h with
    | whole => exact hp
    | @part d _ hleads hshows =>
      rw [get?_dict_cons]
      cases hc : d.field? key with
      | none => rfl
      | some c =>
        obtain ⟨b, hb⟩ := hleads key c hc
        rw [get?_cons_of_child? hb] at hp
        exact ih (hshows key c b hc hb) hp

/-- What something is written into below a key shows no more than was under the key. -/
theorem inContainer {found : Option Value} (h : ∀ c, found = some c → Shows c b) :
    Shows (container found) b := by
  cases found with
  | none => exact nothing b
  | some c =>
    have hc := h c rfl
    cases c with
    | dict d => exact hc
    | list items => exact hc
    | _ => exact nothing b

/-- Writing what stands in a value succeeds in anything that shows a part of it. The result shows a
part of it too, and whatever was read as in the value still is. -/
theorem exists_put (h : Shows r v) (hq : get? v q = .ok (some x)) :
    ∃ r', put x q r = .ok r' ∧ Shows r' v ∧
      ∀ p, get? r p = get? v p → get? r' p = get? v p := by
  induction q generalizing r v with
  | nil =>
    cases hq
    exact ⟨x, rfl, whole x, fun _ _ => rfl⟩
  | cons key rest ih =>
    by_cases hsame : r = v
    · subst hsame
      exact ⟨r, put_of_get?_self hq, h, fun _ hp => hp⟩
    obtain ⟨d, rfl, hleads, hshows⟩ := h.exists_dict hsame
    obtain ⟨b, hb, hbelow⟩ := get?_cons_eq_some hq
    have hfound : Shows (container (d.field? key)) b :=
      inContainer fun c hc => hshows key c b hc hb
    obtain ⟨r', hput, hr', hkept⟩ := ih hfound hbelow
    refine ⟨.dict (d.putField key r'), put_cons_dict hput, ?_, ?_⟩
    · apply part
      · intro l c hc
        by_cases hl : l = key
        · subst hl
          exact ⟨b, hb⟩
        · rw [Document.field?_putField_of_ne hl] at hc
          exact hleads l c hc
      · intro l c e hc he
        by_cases hl : l = key
        · subst hl
          rw [Document.field?_putField_self] at hc
          cases hc
          cases hb.symm.trans he
          exact hr'
        · rw [Document.field?_putField_of_ne hl] at hc
          exact hshows l c e hc he
    · intro p hp
      cases p with
      | nil => exact absurd (Option.some.inj (Except.ok.inj hp)) hsame
      | cons l p =>
        by_cases hl : l = key
        · subst hl
          rw [get?_dict_cons, get?_cons_of_child? hb] at hp
          rw [get?_dict_cons, Document.field?_putField_self, get?_cons_of_child? hb]
          by_cases hend : p = []
          · -- The key itself was read as in the value, so that the value stands there already.
            subst hend
            cases hc : d.field? l with
            | none =>
              rw [hc] at hp
              cases hp
            | some c =>
              rw [hc] at hp hput
              cases hp
              cases hput.symm.trans (put_container_of_get? hbelow)
              rfl
          · apply hkept
            rw [get?_container _ hend]
            exact hp
        · rw [get?_dict_cons, Document.field?_putField_of_ne hl, ← hp, get?_dict_cons]

end Shows

end Path

namespace Document

open DocumentMapper.Path Sync

variable {d result result' : Document} {columns : List String} {column : String}
  {found : Option Value}

/-- Copying a column that can be read succeeds where a part of the document is shown. Then the
column reads as in the document, and so does every other one that did before. -/
theorem exists_copyColumn (h : Shows (.dict result) (.dict d)) (hc : d.column? column = .ok found) :
    ∃ result', copyColumn d result column = .ok result' ∧ Shows (.dict result') (.dict d) ∧
      result'.column? column = d.column? column ∧
      ∀ other, result.column? other = d.column? other →
        result'.column? other = d.column? other := by
  cases found with
  | none =>
    have hcopy : copyColumn d result column = .ok result := by
      rw [copyColumn, hc]
      rfl
    have hnone : result.column? column = .ok none := h.get?_eq_none hc
    exact ⟨result, hcopy, h, hnone.trans hc.symm, fun _ hother => hother⟩
  | some v =>
    obtain ⟨whole, hput, hshows, hkept⟩ := h.exists_put hc
    obtain ⟨result', rfl⟩ : ∃ result', whole = .dict result' := by
      obtain ⟨key, rest, hpath⟩ := List.exists_cons_of_ne_nil (ofText_ne_nil column)
      rw [hpath] at hput
      rcases put_cons_eq_ok hput with ⟨_, _, _, _, rfl⟩ | ⟨_, _, _, _, hlist, _⟩
      · exact ⟨_, rfl⟩
      · cases hlist
    have hcopy : copyColumn d result column = .ok result' := by
      rw [copyColumn, hc]
      exact putColumn_eq_ok.2 hput
    exact ⟨result', hcopy, hshows, (Path.get?_put_self hput).trans hc.symm, fun other => hkept _⟩

/-- A column that is copied adds the key of its first segment, if there is anything to copy. -/
theorem mem_keys_copyColumn (h : copyColumn d result column = .ok result') {key : Value}
    (hkey : key ∈ result'.map Prod.fst) : key ∈ result.map Prod.fst ∨
      d.hasColumn column = .ok true ∧
        ∃ top, (ofText column).head? = some top ∧ key = .text top := by
  obtain ⟨found, hc, h⟩ := Outcome.bind_eq_ok.1 h
  cases found with
  | none =>
    cases h
    exact .inl hkey
  | some v =>
    have hhas : d.hasColumn column = .ok true := by
      rw [hasColumn, Path.has, show Path.get? (.dict d) (ofText column) = .ok (some v) from hc]
      rfl
    have hput := putColumn_eq_ok.1 h
    obtain ⟨top, rest, hpath⟩ := List.exists_cons_of_ne_nil (ofText_ne_nil column)
    rw [hpath] at hput
    rcases put_cons_eq_ok hput with ⟨e, below, he, -, hresult⟩ | ⟨_, _, _, _, hlist, _⟩
    · cases he
      cases hresult
      rcases map_fst_put (.text top) below result with hkeys | hkeys
      · exact .inl (hkeys ▸ hkey)
      · rw [putField, hkeys, List.mem_append, List.mem_singleton] at hkey
        refine hkey.imp_right fun hkey => ⟨hhas, top, ?_, hkey⟩
        rw [hpath]
        rfl
    · cases hlist

/-- All columns that are copied one after another read as in the document in the end. -/
theorem exists_copyColumns (h : Shows (.dict result) (.dict d))
    (hcolumns : ∀ c ∈ columns, ∃ found, d.column? c = .ok found) :
    ∃ result', columns.foldlM (copyColumn d) result = .ok result' ∧
      (∀ c ∈ columns, result'.column? c = d.column? c) ∧
      ∀ other, result.column? other = d.column? other →
        result'.column? other = d.column? other := by
  induction columns generalizing result with
  | nil => exact ⟨result, rfl, List.forall_mem_nil _, fun _ hother => hother⟩
  | cons c rest ih =>
    obtain ⟨⟨found, hc⟩, hrest⟩ := List.forall_mem_cons.1 hcolumns
    obtain ⟨between, hcopy, hbetween, hown, hothers⟩ := exists_copyColumn h hc
    obtain ⟨result', hrun, hread, hkept⟩ := ih hbetween hrest
    refine ⟨result', Outcome.foldlM_cons_eq_ok.2 ⟨between, hcopy, hrun⟩, ?_, ?_⟩
    · exact List.forall_mem_cons.2 ⟨hkept c hown, hread⟩
    · intro other hother
      exact hkept other (hothers other hother)

/-- The document cut down to columns that can all be read. Every one of these reads in it exactly as
in the document, whether it has a value there or not, and each of its keys is the first segment of
one of them that the document has. It is what is embedded of a record whose schema names them. -/
theorem only_faithful (h : ∀ c ∈ columns, ∃ found, d.column? c = .ok found) :
    ∃ result, d.only columns = .ok result ∧
      (∀ c ∈ columns, result.column? c = d.column? c) ∧
      (∀ key ∈ result.map Prod.fst, ∃ c ∈ columns, d.hasColumn c = .ok true ∧
        ∃ top, (ofText c).head? = some top ∧ key = .text top) ∧
      ∀ (s : Schema) (r : Record), s.embedded = columns → columns ≠ [] → s.embeddedExcept = [] →
        s.embeddedUnstamped = false → r.data = d → r.embedded s = .ok result := by
  obtain ⟨result, honly, hread, -⟩ := exists_copyColumns (Shows.nothing (.dict d)) h
  refine ⟨result, honly, hread, ?_, ?_⟩
  · apply foldlM_preserves _ (List.forall_mem_nil _) honly
    intro c hc e e' hcopy hkeys key hkey
    rcases mem_keys_copyColumn hcopy hkey with hold | hnew
    · exact hkeys key hold
    · exact ⟨c, hc, hnew⟩
  · intro s r hembedded hne hexcept hunstamped hdata
    have hcopy : r.embedded s = d.only columns := by
      simp [Record.embedded, hexcept, hunstamped, hembedded, hne, hdata]
    exact hcopy.trans honly

/-- An order with a list of items. -/
def order : Document :=
  [(.text "id", .int 31), (.text "status", .text "open"),
    (.text "items", .list [.single "name" (.text "pen"), .single "name" (.text "ink")])]

/-- Columns through a list by two spellings of one position, one below another, and one that leads
nowhere. -/
def orderColumns : List String :=
  ["items.00.name", "status.by", "items.1.name", "items.0", "items.1"]

theorem only_faithful_order :
    (∀ c ∈ orderColumns, ∃ found, order.column? c = .ok found) ∧
    ∃ result, order.only orderColumns = .ok result ∧
      result.column? "items.00.name" = .ok (some (.text "pen")) ∧
      result.column? "items.1" = .ok (some (.single "name" (.text "ink"))) ∧
      result.column? "status.by" = .ok none ∧
      (∀ key ∈ result.map Prod.fst, key = .text "items") ∧
      Record.embedded { Schema.plain "Order" with embedded := orderColumns }
        (.ofData "Order" order) = .ok result := by
  have h : ∀ c ∈ orderColumns, ∃ found, order.column? c = .ok found := by
    simp only [orderColumns, List.forall_mem_cons]
    exact ⟨⟨_, rfl⟩, ⟨_, rfl⟩, ⟨_, rfl⟩, ⟨_, rfl⟩, ⟨_, rfl⟩, List.forall_mem_nil _⟩
  obtain ⟨result, honly, hread, hkeys, hembedded⟩ := only_faithful h
  refine ⟨h, result, honly, hread _ (by decide), hread _ (by decide), hread _ (by decide), ?_,
    hembedded _ _ rfl (by decide) rfl rfl rfl⟩
  intro key hkey
  obtain ⟨c, hc, hhas, top, htop, rfl⟩ := hkeys key hkey
  simp only [orderColumns, List.mem_cons, List.not_mem_nil, or_false] at hc
  rcases hc with rfl | rfl | rfl | rfl | rfl
  · cases htop
    rfl
  · cases hhas
  · cases htop
    rfl
  · cases htop
    rfl
  · cases htop
    rfl

end Document

end DocumentMapper
