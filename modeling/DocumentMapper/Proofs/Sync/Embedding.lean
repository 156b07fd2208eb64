import DocumentMapper.Proofs.Document.Frame
import DocumentMapper.Proofs.Model.Sample
import DocumentMapper.Proofs.Model.Saving
import DocumentMapper.Proofs.Path.Modify
import DocumentMapper.Proofs.Sync.RefreshColumn
import DocumentMapper.Proofs.Sync.Transition

/-!
# Copies from their creation on

A rule embeds a new record in a target and later brings its copies there up to date. The two agree
on where a copy stands in a column of one value and in a plain list. They do not in a column that
names a list and a field of its elements: embedding takes it for a path, with a list at its end,
while a later change looks for copies in the elements of the list at its beginning. What was
embedded in such a column stays as it is.
-/

namespace DocumentMapper.Sync

open EmbeddedList

variable {mode : Mode} {id payload v : Value} {d d' : Document} {columns : List String}
  {column other top field key : String} {items : List Value}

/-- The elements of a list that was read. -/
def elementsOf : Except Error (Option Value) → List Value
  | .ok (some (.list items)) => items
  | _ => []

/-- What a rule has embedded in a column: the value there, in a rule for many the elements of a
list. -/
def embeddedIn (mode : Mode) (d : Document) (column : String) : List Value :=
  match mode with
  | .single => (found? d column).toList
  | .many => elementsOf (d.column? column)

theorem embeddedIn_congr (h : d'.column? column = d.column? column) :
    embeddedIn mode d' column = embeddedIn mode d column := by
  unfold embeddedIn found?
  rw [h]

theorem mem_embeddedIn_single : v ∈ embeddedIn .single d column ↔ d.column? column = .ok (some v) :=
  Option.mem_toList.trans found?_eq_some

theorem embeddedIn_of_column? (h : d.column? column = .ok (some (.list items))) :
    embeddedIn .many d column = items := by
  unfold embeddedIn
  rw [h]
  rfl

theorem column?_of_mem_embeddedIn_many (h : v ∈ embeddedIn .many d column) :
    d.column? column = .ok (some (.list (embeddedIn .many d column))) := by
  have hmem : v ∈ elementsOf (d.column? column) := h
  show d.column? column = .ok (some (.list (elementsOf (d.column? column))))
  unfold elementsOf at hmem
  split at hmem
  · next items hitems => rw [hitems]; rfl
  · cases hmem

/-! ## Embedding -/

theorem column?_putColumn_of_apart (h : d.putColumn other v = .ok d')
    (ha : Path.apart (Path.ofText other) (Path.ofText column) = true) :
    d'.column? column = d.column? column :=
  Path.get?_put_of_apart ha (Document.putColumn_eq_ok.1 h)

theorem column?_putColumn_self (h : d.putColumn column v = .ok d') :
    d'.column? column = .ok (some v) :=
  Path.get?_put_self (Document.putColumn_eq_ok.1 h)

/-- What embedding writes: the payload, or a list that ends with it. -/
theorem embedColumn_eq_ok (hp : payload.isNull = false)
    (h : embedColumn mode payload d column = .ok d') :
    ∃ w, d.putColumn column w = .ok d' ∧
      ((mode = .single ∧ w = payload) ∨
        (mode = .many ∧ ∃ items, w = .list (items ++ [payload]))) := by
  cases mode with
  | single => exact ⟨payload, h, .inl ⟨rfl, rfl⟩⟩
  | many =>
    unfold embedColumn associate at h
    simp only [hp, Bool.false_eq_true, if_false] at h
    obtain ⟨v, -, h⟩ := Outcome.bind_eq_ok.1 h
    obtain ⟨w, happend, hput⟩ := Outcome.bind_eq_ok.1 h
    cases v with
    | list items =>
      cases happend
      exact ⟨_, hput, .inr ⟨rfl, items, rfl⟩⟩
    | _ => cases happend

theorem mem_embedColumn (hp : payload.isNull = false)
    (h : embedColumn mode payload d column = .ok d') : payload ∈ embeddedIn mode d' column := by
  obtain ⟨w, hput, ⟨rfl, rfl⟩ | ⟨rfl, items, rfl⟩⟩ := embedColumn_eq_ok hp h
  · exact mem_embeddedIn_single.2 (column?_putColumn_self hput)
  · rw [embeddedIn_of_column? (column?_putColumn_self hput)]
    exact List.mem_append_right _ (List.mem_singleton_self _)

/-- Whether no column leads to a place inside of another one. -/
def Separate (columns : List String) : Prop :=
  ∀ other ∈ columns, ∀ column ∈ columns,
    other = column ∨ Path.apart (Path.ofText other) (Path.ofText column) = true

instance : Decidable (Separate columns) :=
  inferInstanceAs (Decidable (∀ other ∈ columns, ∀ column ∈ columns, _))

theorem mem_embed (hp : payload.isNull = false) (hs : Separate columns) (hc : column ∈ columns)
    (h : embed mode columns payload d = .ok d') : payload ∈ embeddedIn mode d' column := by
  refine foldlM_reaches (P := fun _ => True) (fun _ _ _ _ _ _ => trivial)
    (fun d d' hstep _ => mem_embedColumn hp hstep) (fun other ho d d' hstep hmem => ?_) hc trivial h
  obtain rfl | ha := hs other ho column hc
  · exact mem_embedColumn hp hstep
  · obtain ⟨w, hput, -⟩ := embedColumn_eq_ok hp hstep
    rwa [embeddedIn_congr (column?_putColumn_of_apart hput ha)]

/-! ## Refreshing other columns -/

/-- A column of a documented shape: any path, in a rule for many a field of the document or a field
of the elements of a list in it. -/
def Shaped : Mode → String → Prop
  | .single, _ => True
  | .many, column => (Path.ofText column).length ≤ 2

instance : ∀ mode column, Decidable (Shaped mode column)
  | .single, _ => inferInstanceAs (Decidable True)
  | .many, column => inferInstanceAs (Decidable ((Path.ofText column).length ≤ 2))

theorem Shaped.ofText_eq {rest : Path} (hshape : Shaped .many column)
    (hpath : Path.ofText column = top :: key :: rest) : Path.ofText column = [top, key] := by
  have hlength : (Path.ofText column).length ≤ 2 := hshape
  rw [hpath] at hlength ⊢
  have hrest : rest = [] := by simpa using hlength
  rw [hrest]

theorem exists_ofText_parts (column : String) :
    ∃ rest, Path.ofText column = (parts column).1 :: rest := by
  rcases hc : parts column with ⟨top, _ | field⟩
  · obtain ⟨-, rfl⟩ := nested?_of_parts_none hc
    exact ⟨[], ofText_of_parts hc⟩
  · obtain ⟨key, rest, hpath⟩ := ofText_of_parts_some hc
    exact ⟨key :: rest, hpath⟩

theorem column?_of_field? (h : d'.field? (parts column).1 = d.field? (parts column).1) :
    d'.column? column = d.column? column := by
  obtain ⟨rest, hpath⟩ := exists_ofText_parts column
  unfold Document.column?
  rw [hpath, Path.get?_dict_cons, Path.get?_dict_cons, h]

theorem elementsOf_get?_map (change : Document → Document) (items : List Value) (key : String) :
    elementsOf (Path.get? (.list (items.map (changeIn change field id))) [key]) =
      elementsOf (Path.get? (.list items) [key]) := by
  cases hi : Path.position? key with
  | none =>
    refine congrArg elementsOf (Path.get?_list_congr (fun j hj => ?_) [])
    cases hi.symm.trans hj
  | some i =>
    rw [Path.get?_list_cons hi, Path.get?_list_cons hi, List.getElem?_map]
    cases items[i]? with
    | none => rfl
    | some e =>
      cases e with
      | dict e =>
        simp only [Option.map_some, changeIn_dict]
        rfl
      | _ => rfl

/-- Changing a field of the elements of a list leaves the lists among these elements alone, and
with them whatever was embedded there. -/
theorem embeddedIn_refreshColumn_nested (ho : parts other = (top, some field))
    (hpath : Path.ofText column = [top, key])
    (h : refreshColumn .many id payload d other = .ok d') :
    embeddedIn .many d' column = embeddedIn .many d column := by
  rcases refreshColumn_nested ho h with ⟨rfl, -⟩ | ⟨items, hitems, rfl⟩
  · rfl
  · unfold embeddedIn Document.column?
    rw [hpath, Path.get?_dict_cons, Path.get?_dict_cons, Document.field?_putField_self, hitems]
    exact elementsOf_get?_map _ items key

theorem embeddedIn_refreshColumn_of_apart (hp : payload.isNull = false)
    (hshape : Shaped mode column)
    (ha : Path.apart (Path.ofText other) (Path.ofText column) = true)
    (h : refreshColumn mode id payload d other = .ok d') :
    embeddedIn mode d' column = embeddedIn mode d column := by
  cases mode with
  | single =>
    obtain ⟨-, -, ⟨-, rfl⟩ | ⟨-, hput⟩⟩ := refreshColumn_single h
    · rfl
    · exact embeddedIn_congr (column?_putColumn_of_apart hput ha)
  | many =>
    by_cases htop : (parts column).1 = (parts other).1
    · -- Columns that begin alike and lie apart go on below a list, both of them.
      obtain ⟨rest, hpath⟩ := exists_ofText_parts column
      rcases ho : parts other with ⟨top, _ | field⟩
      · obtain ⟨-, rfl⟩ := nested?_of_parts_none ho
        rw [ho] at htop
        rw [ofText_of_parts ho, hpath, htop, Path.apart_cons_self] at ha
        cases ha
      · rw [ho] at htop
        obtain ⟨key, below, hother⟩ := ofText_of_parts_some ho
        rw [hother, hpath, htop, Path.apart_cons_self] at ha
        obtain ⟨l, rest, rfl⟩ := List.exists_cons_of_ne_nil (Path.ne_nil_of_apart ha)
        rw [htop] at hpath
        exact embeddedIn_refreshColumn_nested ho (hshape.ofText_eq hpath) h
    · exact embeddedIn_congr (column?_of_field? (refreshColumn_many_other hp h htop))

/-! ## Refreshing the own column -/

/-- Whether a copy of a record is embedded in a column. -/
def Embeds (mode : Mode) (id : Value) (d : Document) (column : String) : Prop :=
  ∃ v ∈ embeddedIn mode d column, isCopyOf id v = true

/-- Whether updates of a rule look for copies where its columns lead. -/
def Direct (mode : Mode) (column : String) : Prop :=
  mode = .single ∨ nested? column = none

theorem exists_reassociated (payload : Value) (items : List Value) :
    ∃ items', reassociated payload (.list items) = .ok (.list items') ∧ payload ∈ items' := by
  cases items with
  | nil => exact ⟨[payload], rfl, List.mem_singleton_self _⟩
  | cons first rest =>
    rw [reassociated_of_isTruthy rfl]
    simp only [Value.parts, bind, Except.bind]
    split
    · next i hi =>
      have hlt := (List.findIdx?_eq_some_iff_getElem.1 hi).1
      exact ⟨_, rfl, List.mem_set hlt payload⟩
    · exact ⟨_, rfl, List.mem_append_right _ (List.mem_singleton_self _)⟩

theorem exists_refreshColumn_plain (hc : parts column = (top, none)) (hp : payload.isNull = false)
    (hd : d.field? top = some (.list items)) (hv : v ∈ items) (hcopy : isCopyOf id v = true) :
    ∃ items', refreshColumn .many id payload d column = .ok (d.putField top (.list items')) ∧
      payload ∈ items' := by
  have ht := ofText_of_parts hc
  obtain ⟨hn, rfl⟩ := nested?_of_parts_none hc
  have hfield : d.fieldOrNull top = .list items := by
    rw [Document.fieldOrNull, hd, Option.getD_some]
  have hrefers : references .many d top id = .ok true := by
    rw [references_many ht, hfield]
    exact congrArg Except.ok (List.any_eq_true.2 ⟨v, hv, hcopy⟩)
  obtain ⟨items', hitems, hmem⟩ := exists_reassociated payload items
  refine ⟨items', ?_, hmem⟩
  simp only [refreshColumn, hn, hrefers]
  show reassociate d top payload = _
  rw [reassociate_of_segment ht hp, hfield, hitems]
  rfl

theorem exists_replaceNested (ht : Path.ofText top = [top]) (d : Document) (field : String)
    (id payload : Value) : ∃ d', replaceNested d top field id payload = .ok d' := by
  unfold replaceNested
  obtain ⟨items, -, he⟩ | ⟨-, ⟨-, he⟩ | ⟨-, he⟩⟩ := elements?_of_segment (d := d) ht
  · simp only [he, bind, Except.bind, Document.putColumn_of_segment ht]
    split <;> exact ⟨_, rfl⟩
  · exact ⟨d, by simp only [he, bind, Except.bind]; rfl⟩
  · exact ⟨d, by simp only [he, bind, Except.bind]⟩

/-- The update of a column that holds a copy succeeds, and if it looks for the copy where that was
embedded the payload is there afterwards. -/
theorem Embeds.exists_refreshColumn (he : Embeds mode id d column) (hp : payload.isNull = false) :
    ∃ d', refreshColumn mode id payload d column = .ok d' ∧
      (Direct mode column → payload ∈ embeddedIn mode d' column) := by
  obtain ⟨v, hv, hcopy⟩ := he
  cases mode with
  | single =>
    have hread := mem_embeddedIn_single.1 hv
    have hput := Path.put_of_get? hread fun _ => payload
    obtain ⟨d', hd'⟩ : ∃ d', d.putColumn column payload = .ok d' := by
      rw [Document.putColumn, hput]
      exact ⟨_, rfl⟩
    refine ⟨d', ?_, fun _ => mem_embeddedIn_single.2 (column?_putColumn_self hd')⟩
    simp only [refreshColumn, references_single hread, Option.getD_some, hcopy]
    exact hd'
  | many =>
    rcases hc : parts column with ⟨top, _ | field⟩
    · have ht := ofText_of_parts hc
      have hread := column?_of_mem_embeddedIn_many hv
      obtain ⟨-, rfl⟩ := nested?_of_parts_none hc
      rw [Document.column?_of_segment ht] at hread
      obtain ⟨items, hd', hmem⟩ :=
        exists_refreshColumn_plain hc hp (Except.ok.inj hread) hv hcopy
      have hread' : (d.putField top (.list items)).column? top = .ok (some (.list items)) := by
        rw [Document.column?_of_segment ht, Document.field?_putField_self]
      refine ⟨_, hd', fun _ => ?_⟩
      rwa [embeddedIn_of_column? hread']
    · have hn := nested?_of_parts_some hc
      obtain ⟨d', hd'⟩ := exists_replaceNested (ofText_of_parts hc) d field id payload
      refine ⟨d', by simpa only [refreshColumn, hn] using hd', fun hdirect => ?_⟩
      obtain hsingle | hnone := hdirect
      · cases hsingle
      · cases hn.symm.trans hnone

/-- What the update of any column does to one that holds a copy. -/
theorem Embeds.refreshColumn_cases (he : Embeds mode id d column) (hp : payload.isNull = false)
    (hshape : Shaped mode column)
    (hs : other = column ∨ Path.apart (Path.ofText other) (Path.ofText column) = true)
    (h : refreshColumn mode id payload d other = .ok d') :
    embeddedIn mode d' column = embeddedIn mode d column ∨
      (Direct mode column ∧ payload ∈ embeddedIn mode d' column) := by
  obtain rfl | ha := hs
  · by_cases hdirect : Direct mode other
    · obtain ⟨d₁, hd₁, hmem⟩ := he.exists_refreshColumn hp
      cases h.symm.trans hd₁
      exact .inr ⟨hdirect, hmem hdirect⟩
    · left
      cases mode with
      | single => exact absurd (.inl rfl) hdirect
      | many =>
        rcases hc : parts other with ⟨top, _ | field⟩
        · exact absurd (.inr (nested?_of_parts_none hc).1) hdirect
        · obtain ⟨key, rest, hpath⟩ := ofText_of_parts_some hc
          exact embeddedIn_refreshColumn_nested hc (hshape.ofText_eq hpath) h
  · exact .inl (embeddedIn_refreshColumn_of_apart hp hshape ha h)

/-! ## All columns -/

section Run

variable (hp : payload.isNull = false) (hcopy : isCopyOf id payload = true)
  (hs : Separate columns) (hshape : ∀ c ∈ columns, Shaped mode c)

include hp hcopy hs hshape

theorem Embeds.refreshColumn_other (hc : column ∈ columns) (ho : other ∈ columns)
    (he : Embeds mode id d column) (h : refreshColumn mode id payload d other = .ok d') :
    Embeds mode id d' column := by
  rcases he.refreshColumn_cases hp (hshape column hc) (hs other ho column hc) h with
    hsame | ⟨-, hmem⟩
  · obtain ⟨v, hv, hv'⟩ := he
    exact ⟨v, hsame ▸ hv, hv'⟩
  · exact ⟨payload, hmem, hcopy⟩

theorem exists_refresh_of_embeds (hd : ∀ c ∈ columns, Embeds mode id d c) :
    ∃ d', refresh mode columns id payload d = .ok d' := by
  refine foldlM_succeeds (P := fun d => ∀ c ∈ columns, Embeds mode id d c)
    (fun other ho d hd => ?_) hd
  obtain ⟨d', hd', -⟩ := (hd other ho).exists_refreshColumn hp
  exact ⟨d', hd', fun c hc => (hd c hc).refreshColumn_other hp hcopy hs hshape hc ho hd'⟩

/-- Where copies are embedded in all columns, an update brings the payload to those that it looks
for copies in, and to no other. -/
theorem mem_refresh_iff (hd : Embeds mode id d column) (hc : column ∈ columns)
    (h : refresh mode columns id payload d = .ok d') :
    payload ∈ embeddedIn mode d' column ↔
      Direct mode column ∨ payload ∈ embeddedIn mode d column := by
  have hkeeps (other : String) (ho : other ∈ columns) (d d' : Document)
      (hstep : refreshColumn mode id payload d other = .ok d') (he : Embeds mode id d column) :
      Embeds mode id d' column :=
    he.refreshColumn_other hp hcopy hs hshape hc ho hstep
  have hlast (other : String) (ho : other ∈ columns) (d d' : Document)
      (hstep : refreshColumn mode id payload d other = .ok d')
      (hmem : payload ∈ embeddedIn mode d column) : payload ∈ embeddedIn mode d' column := by
    have he : Embeds mode id d column := ⟨payload, hmem, hcopy⟩
    rcases he.refreshColumn_cases hp (hshape column hc) (hs other ho column hc) hstep with
      hsame | ⟨-, hmem'⟩
    · rwa [hsame]
    · exact hmem'
  constructor
  · intro hmem
    by_cases hdirect : Direct mode column
    · exact .inl hdirect
    · right
      have hsame : Embeds mode id d' column ∧
          embeddedIn mode d' column = embeddedIn mode d column := by
        refine foldlM_preserves (P := fun e => Embeds mode id e column ∧
          embeddedIn mode e column = embeddedIn mode d column) (fun other ho e e' hstep he => ?_)
          ⟨hd, rfl⟩ h
        refine ⟨hkeeps other ho e e' hstep he.1, ?_⟩
        rcases he.1.refreshColumn_cases hp (hshape column hc) (hs other ho column hc) hstep with
          hsame | ⟨hdirect', -⟩
        · rw [hsame, he.2]
        · exact absurd hdirect' hdirect
      rwa [← hsame.2]
  · rintro (hdirect | hmem)
    · refine foldlM_reaches hkeeps (fun e e' hstep he => ?_) hlast hc hd h
      obtain ⟨e₁, he₁, hmem⟩ := he.exists_refreshColumn hp
      cases hstep.symm.trans he₁
      exact hmem hdirect
    · exact foldlM_preserves hlast hmem h

end Run

/-! ## Saved targets -/

variable {σ : Type} {ctx : Context σ} {model : String} {target after : Record} {s s' : σ}
  {depth : Nat} {o : SaveOptions} {change : Document → Except Error Document}

/-- Whether saving records of a model leaves alone what some columns lead to: it casts nothing,
listeners leave records as they are, and no column begins with a field that saving writes to. -/
structure Undisturbed (ctx : Context σ) (model : String) (columns : List String) : Prop where
  listeners : ctx.LeavesRecords
  uncast : (ctx.model model).casts = []
  key : ∀ column ∈ columns, (Path.ofText column).head? ≠ some "_id"
  stamp : ∀ column ∈ columns, ∀ top, (Path.ofText column).head? = some top →
    (ctx.model model).updatedAt ≠ .text top

theorem head?_ofText (column : String) : (Path.ofText column).head? = some (parts column).1 := by
  obtain ⟨rest, hpath⟩ := exists_ofText_parts column
  rw [hpath, List.head?_cons]

theorem field?_embed {name : String} (hp : payload.isNull = false)
    (hn : Path.position? name = none)
    (hcolumns : ∀ column ∈ columns, (Path.ofText column).head? ≠ some name)
    (h : embed mode columns payload d = .ok d') : d'.field? name = d.field? name := by
  refine foldlM_keeps (f := (·.field? name)) (fun column hc e e' hstep => ?_) h
  obtain ⟨w, hput, -⟩ := embedColumn_eq_ok hp hstep
  exact Document.field?_of_putColumn hput (hcolumns column hc) hn

theorem field?_refresh {name : String} (hp : payload.isNull = false)
    (hn : Path.position? name = none)
    (hcolumns : ∀ column ∈ columns, (Path.ofText column).head? ≠ some name)
    (h : refresh mode columns id payload d = .ok d') : d'.field? name = d.field? name := by
  refine foldlM_keeps (f := (·.field? name)) (fun column hc e e' hstep => ?_) h
  have hhead := hcolumns column hc
  cases mode with
  | single =>
    obtain ⟨-, -, ⟨-, rfl⟩ | ⟨-, hput⟩⟩ := refreshColumn_single hstep
    · rfl
    · exact Document.field?_of_putColumn hput hhead hn
  | many =>
    rw [head?_ofText] at hhead
    exact refreshColumn_many_other hp hstep fun hname => hhead (congrArg some hname.symm)

theorem isNew_congr (h : d.field? "_id" = target.data.field? "_id") :
    { target with data := d }.isNew = target.isNew := by
  unfold Record.isNew Record.key Document.fieldOrNull
  rw [h]

/-- Saving a changed target that is stored keeps what the change has put into its columns. -/
theorem Undisturbed.column?_changeAndSave (hu : Undisturbed ctx target.model columns)
    (hchanges : o.changes.isTruthy = false) (hnew : target.isNew = false)
    (hkey : ∀ d, change target.data = .ok d → d.field? "_id" = target.data.field? "_id")
    (h : (changeAndSave (Lifecycle.cascade ctx depth) change o).run (target, s) =
      (.ok (), after, s')) :
    ∃ d, change target.data = .ok d ∧ (after.data.fieldOrNull "_id").isTruthy = true ∧
      ∀ column ∈ columns, after.data.column? column = d.column? column := by
  obtain ⟨d, hd, hsave⟩ := changeAndSave_eq_ok h
  have hid : (d.fieldOrNull "_id").isTruthy = true := by
    have hnew' : (!(target.data.fieldOrNull "_id").isTruthy || target.restored) = false := hnew
    rw [Bool.or_eq_false_iff, Bool.not_eq_false'] at hnew'
    rw [Document.fieldOrNull, hkey d hd]
    exact hnew'.1
  cases depth with
  | zero => cases hsave
  | succ depth =>
    have huncast : Lifecycle.Uncast ctx o { target with data := d } := .inr hu.uncast
    have hstamped := Lifecycle.stamped_of_save hu.listeners huncast hchanges
      ((isNew_congr (hkey d hd)).trans hnew) hsave
    refine ⟨d, hd, ?_, fun column hc => ?_⟩
    · obtain heq | ⟨time, heq⟩ := hstamped
      · rwa [heq]
      · rw [heq, Document.fieldOrNull]
        by_cases hstamp : (ctx.model target.model).updatedAt = .text "_id"
        · rw [hstamp, ← Document.fieldOrNull]
          exact congrArg Value.isTruthy (Document.fieldOrNull_putField_self d "_id" (.moment time))
        · rwa [Document.field?_put_of_ne hstamp]
    · obtain heq | ⟨time, heq⟩ := hstamped
      · rw [heq]
      · rw [heq]
        refine column?_of_field? (Document.field?_put_of_ne ?_)
        exact hu.stamp column hc _ (head?_ofText column)

theorem column?_identified (h : (Path.ofText column).head? ≠ some "_id") (d : Document) :
    (Record.identified d).column? column = d.column? column := by
  unfold Record.identified
  split
  · split
    · next id _ =>
      rw [head?_ofText] at h
      exact column?_of_field? (Document.field?_putField_of_ne fun hname => h (congrArg some hname))
    · rfl
  · rfl

theorem isTruthy_identified (h : (d.fieldOrNull "_id").isTruthy = true) :
    ((Record.identified d).fieldOrNull "_id").isTruthy = true := by
  unfold Record.identified
  split
  · split
    · rw [Document.fieldOrNull_putField_self]
      rfl
    · exact h
  · exact h

theorem isNew_ofData (h : (d.fieldOrNull "_id").isTruthy = true) (model : String) :
    (Record.ofData model d).isNew = false := by
  simp [Record.isNew, Record.key, Record.ofData, isTruthy_identified h]

/-- A copy that was embedded when its record was created is kept up to date exactly in the columns
in which an update looks for it: all those of a rule for one, and the plain lists of a rule for
many. In a field of the elements of a list the old copy stays as it is. -/
theorem changeAndSave_embed_refresh_iff (ctx : Context σ) (depth : Nat) (rule : Rule σ)
    (r : Record) (old new : Document) (target created : Record) (s s₁ : σ)
    (hu : Undisturbed ctx target.model rule.columns) (hstored : target.isNew = false)
    (hs : Separate rule.columns) (hshape : ∀ column ∈ rule.columns, Shaped rule.mode column)
    (hold : IsCopy r.id (.dict old)) (hnew : IsCopy r.id (.dict new))
    (h : (changeAndSave (Lifecycle.cascade ctx depth)
      (embed rule.mode rule.columns (.dict old)) .standard).run (target, s) =
        (.ok (), created, s₁)) :
    ∃ d, refresh rule.mode rule.columns r.id (.dict new)
        (Record.ofData target.model created.data).data = .ok d ∧
      ∀ column ∈ rule.columns, .dict old ∈ embeddedIn rule.mode created.data column ∧
        (.dict new ∈ embeddedIn rule.mode d column ↔
          Direct rule.mode column ∨ .dict new ∈ embeddedIn rule.mode created.data column) ∧
        ∀ t t₁ updated, (changeAndSave (Lifecycle.cascade ctx depth)
            (refresh rule.mode rule.columns r.id (.dict new))
            { SaveOptions.standard with cast := false }).run
              (Record.ofData target.model created.data, t) = (.ok (), updated, t₁) →
          embeddedIn rule.mode updated.data column = embeddedIn rule.mode d column := by
  have hkey : Path.position? "_id" = none := by decide
  have hcopy (e : Document) (he : IsCopy r.id (.dict e)) : isCopyOf r.id (.dict e) = true := by
    obtain ⟨e', he', hequal⟩ := he
    cases he'
    exact hequal
  obtain ⟨d₀, hd₀, hid, hcolumns⟩ := hu.column?_changeAndSave rfl hstored
    (fun d hd => field?_embed rfl hkey hu.key hd) h
  have hread (column : String) (hc : column ∈ rule.columns) :
      (Record.ofData target.model created.data).data.column? column = d₀.column? column :=
    (column?_identified (hu.key column hc) _).trans (hcolumns column hc)
  have hembedded (column : String) (hc : column ∈ rule.columns) :
      .dict old ∈ embeddedIn rule.mode d₀ column := mem_embed rfl hs hc hd₀
  have hembeds (column : String) (hc : column ∈ rule.columns) :
      Embeds rule.mode r.id (Record.ofData target.model created.data).data column := by
    refine ⟨.dict old, ?_, hcopy old hold⟩
    rw [embeddedIn_congr (hread column hc)]
    exact hembedded column hc
  obtain ⟨d, hd⟩ := exists_refresh_of_embeds rfl (hcopy new hnew) hs hshape hembeds
  refine ⟨d, hd, fun column hc => ⟨?_, ?_, fun t t₁ updated hupdate => ?_⟩⟩
  · rw [embeddedIn_congr (hcolumns column hc)]
    exact hembedded column hc
  · rw [embeddedIn_congr ((hcolumns column hc).trans (hread column hc).symm)]
    exact mem_refresh_iff rfl (hcopy new hnew) hs hshape (hembeds column hc) hc hd
  · have hu' : Undisturbed ctx (Record.ofData target.model created.data).model rule.columns := hu
    obtain ⟨d', hd', -, hcolumns'⟩ := hu'.column?_changeAndSave rfl
      (isNew_ofData hid target.model) (fun d hd => field?_refresh rfl hkey hu.key hd) hupdate
    cases hd.symm.trans hd'
    exact embeddedIn_congr (hcolumns' column hc)

/-! ### A customer and her orders -/

/-- A rule for a list of orders and for one that is nested. -/
def soldRule : Rule Unit :=
  .sample "Customer" ["orders", "stats.orders"] .many

def sold (total : Int) : Document :=
  [(.text "id", .int 31), (.text "total", .int total)]

def soldOrder : Record :=
  .ofData "Order" (sold 15)

def buyer : Record :=
  .ofData "Customer" [(.text "_id", .int 9), (.text "id", .int 1)]

/-- Embeds the order in its customer when it is new. -/
def embedSold : Action (Record × Unit) Unit :=
  changeAndSave (Lifecycle.cascade .quiet 1)
    (embed soldRule.mode soldRule.columns (.dict (sold 10))) .standard

/-- Puts the changed order in the place of the one that its customer has. -/
def refreshSold : Action (Record × Unit) Unit :=
  changeAndSave (Lifecycle.cascade .quiet 1)
    (refresh soldRule.mode soldRule.columns soldOrder.id (.dict (sold 15)))
    { SaveOptions.standard with cast := false }

theorem undisturbed_soldRule : Undisturbed .quiet buyer.model soldRule.columns where
  listeners := by
    intro id event s ls s' h
    cases h
    exact List.forall_mem_nil _
  uncast := rfl
  key := by decide
  stamp := by
    intro column hc top htop hstamp
    cases hstamp
    revert column
    decide

theorem isCopy_sold (total : Int) : IsCopy soldOrder.id (.dict (sold total)) :=
  ⟨_, rfl, rfl⟩

/-- The buyer with an order in both lists. -/
def supplied (plain nested : Int) : Record :=
  .ofData "Customer" [(.text "_id", .int 9), (.text "id", .int 1),
    (.text "orders", .list [.dict (sold plain)]),
    (.text "stats", .dict [(.text "orders", .list [.dict (sold nested)])]),
    (.text "updatedAt", .moment default)]

theorem run_embedSold : embedSold.run (buyer, ()) = (.ok (), supplied 10 10, ()) := rfl

theorem run_refreshSold : refreshSold.run (Record.ofData "Customer" (supplied 10 10).data, ()) =
    (.ok (), supplied 15 10, ()) := rfl

theorem changeAndSave_embed_refresh_iff_orders :
    Undisturbed .quiet buyer.model soldRule.columns ∧ buyer.isNew = false ∧
    Separate soldRule.columns ∧ (∀ column ∈ soldRule.columns, Shaped soldRule.mode column) ∧
    IsCopy soldOrder.id (.dict (sold 10)) ∧ IsCopy soldOrder.id (.dict (sold 15)) ∧
    embedSold.run (buyer, ()) = (.ok (), supplied 10 10, ()) ∧
    refreshSold.run (Record.ofData "Customer" (supplied 10 10).data, ()) =
      (.ok (), supplied 15 10, ()) ∧
    .dict (sold 15) ∈ embeddedIn .many (supplied 15 10).data "orders" := by
  have hseparate : Separate soldRule.columns := by decide
  have hshape : ∀ column ∈ soldRule.columns, Shaped soldRule.mode column := by decide
  refine ⟨undisturbed_soldRule, rfl, hseparate, hshape, isCopy_sold 10, isCopy_sold 15,
    run_embedSold, run_refreshSold, ?_⟩
  obtain ⟨d, hd, hcolumns⟩ := changeAndSave_embed_refresh_iff .quiet 1 soldRule soldOrder (sold 10)
    (sold 15) buyer (supplied 10 10) () () undisturbed_soldRule rfl hseparate hshape
    (isCopy_sold 10) (isCopy_sold 15) run_embedSold
  obtain ⟨-, hiff, hsaved⟩ := hcolumns "orders" List.mem_cons_self
  have hsame : embeddedIn .many (supplied 15 10).data "orders" = embeddedIn .many d "orders" :=
    hsaved () () (supplied 15 10) run_refreshSold
  rw [hsame]
  exact hiff.2 (.inl (.inr rfl))

/-- The nested order stays as it was when it was embedded. -/
theorem not_embed_refresh_stats :
    embedSold.run (buyer, ()) = (.ok (), supplied 10 10, ()) ∧
    .dict (sold 10) ∈ embeddedIn .many (supplied 10 10).data "stats.orders" ∧
    refreshSold.run (Record.ofData "Customer" (supplied 10 10).data, ()) =
      (.ok (), supplied 15 10, ()) ∧
    .dict (sold 15) ∉ embeddedIn .many (supplied 15 10).data "stats.orders" := by
  have hnested (total : Int) :
      embeddedIn .many (supplied 15 total).data "stats.orders" = [.dict (sold total)] := rfl
  refine ⟨run_embedSold, List.mem_singleton_self _, run_refreshSold, ?_⟩
  rw [hnested, List.mem_singleton]
  simp [sold]

end DocumentMapper.Sync
