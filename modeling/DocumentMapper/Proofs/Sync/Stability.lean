import DocumentMapper.Proofs.Model.Retry
import DocumentMapper.Proofs.Sync.Steadiness

/-!
# Refreshing once more

Rules that name each other would write for ever if a refreshed document changed when it is
refreshed with the same payload again. No column being a path prefix of another one, that never
happens; and a document that is as it was stored is saved without a trace, so that a cycle of rules
comes to rest.

A second run can still fail, where a position of a list is spelled in two ways. What one column
writes may then take a copy away from another one, or bring it back, but the run ends in the same
document. It may also bring a list to where a path leads on with a segment that passes the digit
test and is no number, and such a path cannot be read.
-/

namespace DocumentMapper.Sync

open EmbeddedList

variable {mode : Mode} {id payload v v' : Value} {d d' d'' : Document}
  {column other top : String} {columns : List String}

/-! ## Positions with two spellings -/

/-- What stands in a column of one value after it was refreshed, if `v` stood there before. -/
def renewed (id payload v : Value) : Value :=
  if isCopyOf id v then payload else v

theorem renewed_of_copy (h : isCopyOf id v = true) : renewed id payload v = payload := if_pos h

theorem renewed_of_other (h : isCopyOf id v = false) : renewed id payload v = v :=
  if_neg (Bool.eq_false_iff.1 h)

theorem renewed_renewed (h : isCopyOf id payload = true) (v : Value) :
    renewed id payload (renewed id payload v) = renewed id payload v := by
  cases hv : isCopyOf id v with
  | true => rw [renewed_of_copy hv, renewed_of_copy h]
  | false => rw [renewed_of_other hv, renewed_of_other hv]

/-- Whether nothing that equals an identity has a copy inside. -/
def Grounded (id : Value) : Prop :=
  ∀ v p c, v.equal id = true → Path.get? v p = .ok (some c) → ¬ IsCopy id c

theorem Plain.grounded (hp : Plain id) : Grounded id := by
  intro v p c hequal hread hcopy
  have hdict : v.isDict = false := by
    refine Bool.eq_false_iff.2 fun hd => Bool.false_ne_true ?_
    exact (hp.equal_eq_false (.inl hd)).symm.trans hequal
  have hlist : v.isList = false := by
    refine Bool.eq_false_iff.2 fun hl => Bool.false_ne_true ?_
    exact (hp.equal_eq_false (.inr hl)).symm.trans hequal
  cases p with
  | nil =>
    cases hread
    obtain ⟨d, rfl, -⟩ := hcopy
    cases hdict
  | cons key rest =>
    cases v with
    | dict => cases hdict
    | list => cases hlist
    | _ => cases hread

theorem refreshColumn_single_eq_modify (hid : id ≠ .null)
    (h : refreshColumn .single id payload d column = .ok d') :
    Value.dict d' = Path.modify (renewed id payload) (Path.ofText column) (.dict d) := by
  obtain ⟨found, hfound, ⟨hno, rfl⟩ | ⟨hcopied, hput⟩⟩ := refreshColumn_single h
  · refine (Path.modify_of_fixed fun c hc => ?_).symm
    cases hfound.symm.trans hc
    exact renewed_of_other hno
  · cases found with
    | none => exact absurd ((equal_null_eq_false hid).symm.trans hcopied) Bool.false_ne_true
    | some c =>
      have hchange := Path.put_of_get? hfound (renewed id payload)
      have hcopied : isCopyOf id c = true := hcopied
      rw [renewed_of_copy hcopied, Document.putColumn_eq_ok.1 hput] at hchange
      exact Except.ok.inj hchange

theorem refresh_single_eq_modifyAll (hid : id ≠ .null)
    (h : refresh .single columns id payload d = .ok d') :
    Value.dict d' =
      Path.modifyAll (renewed id payload) (columns.map Path.ofText) (.dict d) := by
  unfold refresh at h
  induction columns generalizing d with
  | nil =>
    rw [Outcome.foldlM_nil_eq_ok.1 h]
    rfl
  | cons c rest ih =>
    obtain ⟨d₁, hc, hrest⟩ := Outcome.foldlM_cons_eq_ok.1 h
    rw [ih hrest, refreshColumn_single_eq_modify hid hc]
    rfl

/-- Refreshing a column of one value fails only if the column cannot be read. -/
theorem exists_refreshColumn_single {found : Option Value} (hid : id ≠ .null)
    (hfound : d.column? column = .ok found) :
    ∃ d', refreshColumn .single id payload d column = .ok d' := by
  simp only [refreshColumn, references_single hfound]
  cases hcopied : isCopyOf id (found.getD .null) with
  | false => exact ⟨d, rfl⟩
  | true =>
    cases found with
    | none => exact absurd ((equal_null_eq_false hid).symm.trans hcopied) Bool.false_ne_true
    | some c =>
      have hput := Path.put_of_get? hfound fun _ => payload
      exact ⟨_, by simp [Document.putColumn, hput, bind, Except.bind]; rfl⟩

/-- Whether refreshing a column cannot make another one unreadable. -/
def Spares (other column : String) : Prop :=
  other = column ∨ Apart .single other column ∨ Path.Legible (Path.ofText column)

/-- A column that could be read can be read after another one was refreshed. -/
theorem Spares.exists_column? (hs : Spares other column)
    (h : refreshColumn .single id payload d other = .ok d')
    (hd : ∃ found, d.column? column = .ok found) : ∃ found, d'.column? column = .ok found := by
  rcases hs with rfl | hapart | hlegible
  · obtain ⟨found, -, ⟨-, rfl⟩ | ⟨-, hput⟩⟩ := refreshColumn_single h
    · exact hd
    · exact ⟨_, Path.get?_put_self (Document.putColumn_eq_ok.1 hput)⟩
  · obtain ⟨found, -, ⟨-, rfl⟩ | ⟨-, hput⟩⟩ := refreshColumn_single h
    · exact hd
    · rw [Document.column?, Path.get?_put_of_apart hapart (Document.putColumn_eq_ok.1 hput)]
      exact hd
  · exact hlegible.exists_get? (.dict d')

/-- If no column can make another one unreadable, then every column can be read after all of them
were refreshed. -/
theorem exists_column?_refresh (hs : ∀ a ∈ columns, ∀ b ∈ columns, Spares a b)
    (h : refresh .single columns id payload d = .ok d') (hc : column ∈ columns) :
    ∃ found, d'.column? column = .ok found := by
  obtain ⟨before, after, hsplit⟩ := List.append_of_mem hc
  unfold refresh at h
  rw [hsplit] at h
  obtain ⟨d₁, d₂, hat⟩ := exists_atTurn h
  obtain ⟨found, hfound, -⟩ := refreshColumn_single hat.own
  have hown : ∃ found, d₂.column? column = .ok found :=
    (hs column hc column hc).exists_column? hat.own ⟨found, hfound⟩
  refine foldlM_preserves (P := fun e => ∃ found, e.column? column = .ok found)
    (fun a ha e e' hstep => ?_) hown hat.rest
  have hmem : a ∈ columns := hsplit ▸ List.mem_append_right _ (List.mem_cons_of_mem _ ha)
  exact (hs a hmem column hc).exists_column? hstep

theorem exists_refresh_single (hid : id ≠ .null) (hs : ∀ a ∈ columns, ∀ b ∈ columns, Spares a b)
    (hd : ∀ c ∈ columns, ∃ found, d.column? c = .ok found) :
    ∃ d', refresh .single columns id payload d = .ok d' := by
  unfold refresh
  induction columns generalizing d with
  | nil => exact ⟨d, rfl⟩
  | cons c rest ih =>
    obtain ⟨found, hfound⟩ := hd c List.mem_cons_self
    obtain ⟨d₁, hd₁⟩ : ∃ d₁, refreshColumn .single id payload d c = .ok d₁ :=
      exists_refreshColumn_single hid hfound
    have hrest : ∀ b ∈ rest, ∃ found, d₁.column? b = .ok found := fun b hb =>
      (hs c List.mem_cons_self b (List.mem_cons_of_mem _ hb)).exists_column? hd₁
        (hd b (List.mem_cons_of_mem _ hb))
    have hsrest : ∀ a ∈ rest, ∀ b ∈ rest, Spares a b := fun a ha b hb =>
      hs a (List.mem_cons_of_mem _ ha) b (List.mem_cons_of_mem _ hb)
    obtain ⟨d', hd'⟩ := ih hsrest hrest
    exact ⟨d', Outcome.foldlM_cons_eq_ok.2 ⟨d₁, hd₁, hd'⟩⟩

section Grounded

variable (hid : id ≠ .null) (hg : Grounded id) (hcopy : IsCopy id payload)

include hid hg hcopy

/-- Renewing the copies inside of a value does not change whether it equals the identity. -/
theorem equal_modify (p : Path) (v : Value) :
    (Path.modify (renewed id payload) p v).equal id = v.equal id := by
  by_cases hinside : ∃ c, Path.get? v p = .ok (some c) ∧ IsCopy id c
  · -- There is a copy inside before and after, so that neither value equals the identity.
    obtain ⟨c, hc, hcopied⟩ := hinside
    have hread := Path.get?_modify hc (renewed id payload)
    rw [renewed_of_copy ((isCopyOf_iff hid).2 hcopied)] at hread
    have hbefore : v.equal id = false :=
      Bool.eq_false_iff.2 fun hequal => hg v p c hequal hc hcopied
    have hafter : (Path.modify (renewed id payload) p v).equal id = false :=
      Bool.eq_false_iff.2 fun hequal => hg _ p payload hequal hread hcopy
    rw [hbefore, hafter]
  · have hfixed : Path.modify (renewed id payload) p v = v := by
      refine Path.modify_of_fixed fun c hc => renewed_of_other ?_
      exact Bool.eq_false_iff.2 fun hcopied => hinside ⟨c, hc, (isCopyOf_iff hid).1 hcopied⟩
    rw [hfixed]

/-- Renewing the copies inside of a value does not change whether it is a copy itself. -/
theorem isCopyOf_modify (p : Path) (v : Value) :
    isCopyOf id (Path.modify (renewed id payload) p v) = isCopyOf id v := by
  cases p with
  | nil =>
    rw [Path.modify]
    cases hv : isCopyOf id v with
    | true => rw [renewed_of_copy hv, (isCopyOf_iff hid).2 hcopy]
    | false => rw [renewed_of_other hv, hv]
  | cons key rest =>
    cases v with
    | dict d =>
      rw [Path.modify, Path.modifyChild_dict]
      cases hd : Document.field? d key with
      | none => rfl
      | some c =>
        simp only [isCopyOf, copyId]
        by_cases hkey : "id" = key
        · subst hkey
          rw [Document.fieldOrNull_putField_self, equal_modify hid hg hcopy, Document.fieldOrNull,
            hd, Option.getD_some]
        · rw [Document.fieldOrNull_putField_of_ne hkey]
    | list items =>
      simp only [Path.modify, Path.modifyChild]
      cases Path.position? key <;> rfl
    | _ => rfl

theorem absorbing_renewed : Path.Absorbing (renewed id payload) := by
  have hpayload : isCopyOf id payload = true := (isCopyOf_iff hid).2 hcopy
  have hkept (q : Path) {v : Value} {b : Bool} (hv : isCopyOf id v = b) :
      isCopyOf id (Path.modify (renewed id payload) q v) = b :=
    (isCopyOf_modify hid hg hcopy q v).trans hv
  refine ⟨renewed_renewed hpayload, fun q v => ?_, fun q v => ?_⟩
  · cases hv : isCopyOf id v with
    | true =>
      rw [renewed_of_copy hv, renewed_of_copy (hkept q hpayload), renewed_of_copy (hkept q hv)]
    | false => rw [renewed_of_other hv]
  · cases hv : isCopyOf id v with
    | true => rw [renewed_of_copy (hkept q hv), renewed_of_copy hv]
    | false =>
      have hself : renewed id payload ∘ renewed id payload = renewed id payload :=
        funext (renewed_renewed hpayload)
      rw [renewed_of_other (hkept q hv), renewed_of_other hv, Path.modify_modify, hself]

/-- Whatever the columns are, a second run that succeeds changes nothing. -/
theorem eq_of_refresh_single_again (h : refresh .single columns id payload d = .ok d')
    (hagain : refresh .single columns id payload d' = .ok d'') : d'' = d' := by
  have hfirst := refresh_single_eq_modifyAll hid h
  have hsecond := refresh_single_eq_modifyAll hid hagain
  rw [hfirst, (absorbing_renewed hid hg hcopy).modifyAll_modifyAll, ← hfirst] at hsecond
  exact Value.dict.inj hsecond

end Grounded

/-- Refreshing columns of one value once more changes nothing, if they lie apart or at least cannot
make each other unreadable. -/
theorem refresh_single_again {copy : Document} (hid : id ≠ .null) (hcopy : IsCopy id (.dict copy))
    (hspelling : ∀ a ∈ columns, ∀ b ∈ columns,
      a = b ∨ Apart .single a b ∨ Grounded id ∧ Path.Legible (Path.ofText b))
    (h : refresh .single columns id (.dict copy) d = .ok d') :
    refresh .single columns id (.dict copy) d' = .ok d' := by
  by_cases hapart : ∀ a ∈ columns, ∀ b ∈ columns, a = b ∨ Apart .single a b
  · refine refresh_again hid hcopy (fun a ha b hb => ?_) h
    rcases hapart a ha b hb with rfl | hab
    · exact .inl rfl
    · exact .inr hab
  · -- A pair that does not lie apart is one for which the identity is known to be grounded.
    have hg : Grounded id := by
      by_contra hno
      refine hapart fun a ha b hb => ?_
      rcases hspelling a ha b hb with hab | hab | hab
      · exact .inl hab
      · exact .inr hab
      · exact absurd hab.1 hno
    have hspares : ∀ a ∈ columns, ∀ b ∈ columns, Spares a b := fun a ha b hb =>
      (hspelling a ha b hb).imp_right (Or.imp_right And.right)
    obtain ⟨d'', hagain⟩ : ∃ d'', refresh .single columns id (.dict copy) d' = .ok d'' :=
      exists_refresh_single hid hspares fun c hc => exists_column?_refresh hspares h hc
    rw [hagain, eq_of_refresh_single_again hid hg hcopy h hagain]

/-! ## Targets that are as they were stored -/

theorem isTruthy_of_put {new : Value} {p : Path} (hnew : new.isTruthy = true)
    (h : Path.put new p v = .ok v') : v'.isTruthy = true := by
  cases p with
  | nil =>
    cases h
    exact hnew
  | cons key rest =>
    rcases Path.put_cons_eq_ok h with ⟨_, _, -, -, rfl⟩ | ⟨items, i, _, _, -, -, hitem, -, rfl⟩
    · exact Document.isTruthy_put _ _ _
    · have hlt := Path.lt_length_of_getElem? hitem
      cases items with
      | nil => cases hlt
      | cons => cases i <;> rfl

theorem isTruthy_putField {name : String} (hv : v.isTruthy = true)
    (hd : (d.fieldOrNull name).isTruthy = true) :
    ((d.putField top v).fieldOrNull name).isTruthy = true := by
  by_cases hname : name = top
  · rw [hname, Document.fieldOrNull_putField_self, hv]
  · rw [Document.fieldOrNull_putField_of_ne hname, hd]

/-- A field that counts as present still does so after a column was refreshed. -/
theorem isTruthy_refreshColumn {name : String} (hp : payload.isTruthy = true)
    (hnull : payload.isNull = false) (h : refreshColumn mode id payload d column = .ok d')
    (hd : (d.fieldOrNull name).isTruthy = true) : (d'.fieldOrNull name).isTruthy = true := by
  cases mode with
  | single =>
    obtain ⟨found, -, ⟨-, rfl⟩ | ⟨-, hput⟩⟩ := refreshColumn_single h
    · exact hd
    · have hput := Document.putColumn_eq_ok.1 hput
      obtain ⟨key, rest, hpath⟩ := List.exists_cons_of_ne_nil (Path.ofText_ne_nil column)
      rw [hpath] at hput
      rcases Path.put_cons_eq_ok hput with ⟨_, below, he, hbelow, hd'⟩ | ⟨_, _, _, _, he, -⟩
      · cases he
        cases hd'
        exact isTruthy_putField (isTruthy_of_put hp hbelow) hd
      · cases he
  | many =>
    rcases hc : parts column with ⟨top, _ | field⟩
    · rcases refreshColumn_plain hc hnull h with ⟨-, rfl⟩ | ⟨-, v, hv, rfl⟩
      · exact hd
      · exact isTruthy_putField hv.isTruthy hd
    · rcases refreshColumn_nested hc h with ⟨rfl, -⟩ | ⟨items, hitems, rfl⟩
      · exact hd
      · by_cases hname : name = top
        · rw [hname, Document.fieldOrNull, hitems] at hd
          rw [hname, Document.fieldOrNull_putField_self]
          cases items with
          | nil => cases hd
          | cons => rfl
        · rwa [Document.fieldOrNull_putField_of_ne hname]

theorem isTruthy_refresh {name : String} (hp : payload.isTruthy = true)
    (hnull : payload.isNull = false) (h : refresh mode columns id payload d = .ok d')
    (hd : (d.fieldOrNull name).isTruthy = true) : (d'.fieldOrNull name).isTruthy = true :=
  foldlM_preserves (P := fun d => (d.fieldOrNull name).isTruthy = true)
    (fun _ _ _ _ hs => isTruthy_refreshColumn hp hnull hs) hd h

variable {σ : Type}

/-- A stored target that a change leaves as it was stored is not touched otherwise: nothing is
asked of the database, no listener hears of it, and no rule is gone through. -/
theorem run_changeAndSave_unchanged {ctx : Context σ} {depth : Nat}
    {change : Document → Except Error Document} {o : SaveOptions} {target : Record}
    (hbound : ctx.bound = true) (hchanges : o.changes.isTruthy = false)
    (hcast : Lifecycle.Uncast ctx o target) (hchange : change target.data = .ok d)
    (hnew : { target with data := d }.isNew = false)
    (hsame : (Value.dict d).equal (.dict target.stored) = true) (s : σ) :
    (changeAndSave (Lifecycle.cascade ctx (depth + 1)) change o).run (target, s) =
      (.ok (), { target with data := d }, s) := by
  have hunchanged : { target with data := d }.isChanged = false := by
    simp [Record.isChanged, hsame]
  have hsave : (Lifecycle.save ctx (Lifecycle.cascade ctx depth) o).run
      ({ target with data := d }, s) = (.ok (), { target with data := d }, s) :=
    Lifecycle.run_save_of_unchanged rfl hbound hnew hchanges hcast hunchanged s
  rw [← hsave]
  unfold changeAndSave
  rw [Action.run_bind_ok (Action.run_get _)]
  simp only [hchange]
  rfl

/-- Refreshing a target once more changes nothing. It succeeds in a rule for many, and in a rule for
one if no column can make another one unreadable; and there is no other document that it could end
with. A target that is as it was stored after it was refreshed leaves no trace anywhere. -/
theorem changeAndSave_refresh_again (ctx : Context σ) (depth : Nat) (rule : Rule σ) (r : Record)
    (copy : Document) (hid : r.id ≠ .null) (hcopy : IsCopy r.id (.dict copy))
    (hcolumns : PrefixFree rule.columns) :
    (∀ d d', refresh rule.mode rule.columns r.id (.dict copy) d = .ok d' →
      ((rule.mode = .single → ∀ a ∈ rule.columns, ∀ b ∈ rule.columns,
          a = b ∨ Apart .single a b ∨ Grounded r.id ∧ Path.Legible (Path.ofText b)) →
        refresh rule.mode rule.columns r.id (.dict copy) d' = .ok d') ∧
      (Grounded r.id → ∀ d'', refresh rule.mode rule.columns r.id (.dict copy) d' = .ok d'' →
        d'' = d')) ∧
    ∀ target s d, ctx.bound = true → target.restored = false → target.key.isTruthy = true →
      refresh rule.mode rule.columns r.id (.dict copy) target.data = .ok d →
      (Value.dict d).equal (.dict target.stored) = true →
      (changeAndSave (Lifecycle.cascade ctx (depth + 1))
        (refresh rule.mode rule.columns r.id (.dict copy))
        { SaveOptions.standard with cast := false }).run (target, s) =
        (.ok (), { target with data := d }, s) := by
  refine ⟨fun d d' h => ?_, fun target s d hbound hrestored hkey h hsame => ?_⟩
  · cases hmode : rule.mode with
    | single =>
      rw [hmode] at h
      refine ⟨fun hspelling => ?_, fun hg d'' => eq_of_refresh_single_again hid hg hcopy h⟩
      exact refresh_single_again hid hcopy (hspelling rfl) h
    | many =>
      rw [hmode] at h
      have hagain := refresh_again hid hcopy (fun a ha b hb => hcolumns.alike_or_apart ha hb) h
      exact ⟨fun _ => hagain, fun _ d'' h' => Except.ok.inj (h'.symm.trans hagain)⟩
  · have htruthy := isTruthy_of_isCopyOf hid ((isCopyOf_iff hid).2 hcopy)
    have hkey' : (d.fieldOrNull "_id").isTruthy = true := isTruthy_refresh htruthy rfl h hkey
    have hnew : { target with data := d }.isNew = false := by
      simp [Record.isNew, Record.key, hrestored, hkey']
    exact run_changeAndSave_unchanged hbound rfl (.inl rfl) h hnew hsame s

/-! ### Shops with an owner and a staff -/

open Sample

/-- The owner of a shop and the first of its staff. -/
def staffRule : Rule Unit :=
  .sample "Shop" ["owner", "staff.0.person"] .single

/-- A stored shop where one person does everything. -/
def staffed (name : String) : Document :=
  [(.text "_id", .int 7), (.text "owner", .dict (person 1 name)),
    (.text "staff", .list [.dict [(.text "person", .dict (person 1 name))]])]

/-- Refreshing the copies of Ann is done with the first time. -/
theorem changeAndSave_refresh_again_staff :
    ann.id ≠ .null ∧ IsCopy ann.id (.dict (person 1 "Ann")) ∧ PrefixFree staffRule.columns ∧
    refresh .single staffRule.columns ann.id (.dict (person 1 "Ann")) (staffed "Anne") =
      .ok (staffed "Ann") ∧
    refresh .single staffRule.columns ann.id (.dict (person 1 "Ann")) (staffed "Ann") =
      .ok (staffed "Ann") ∧
    (changeAndSave (Lifecycle.cascade .quiet 1)
      (refresh .single staffRule.columns ann.id (.dict (person 1 "Ann")))
      { SaveOptions.standard with cast := false }).run (.ofData "Shop" (staffed "Ann"), ()) =
      (.ok (), .ofData "Shop" (staffed "Ann"), ()) := by
  have hid : ann.id ≠ .null := nofun
  have hfree : PrefixFree staffRule.columns := by decide
  have hfirst : refresh .single staffRule.columns ann.id (.dict (person 1 "Ann"))
      (staffed "Anne") = .ok (staffed "Ann") := rfl
  obtain ⟨hrefresh, hquiet⟩ := changeAndSave_refresh_again .quiet 0 staffRule ann
    (person 1 "Ann") hid (isCopy_ann "Ann") hfree
  have hapart : ∀ a ∈ staffRule.columns, ∀ b ∈ staffRule.columns, a = b ∨ Apart .single a b := by
    unfold Apart
    decide
  have hagain := (hrefresh _ _ hfirst).1 fun _ a ha b hb => (hapart a ha b hb).imp_right .inl
  exact ⟨hid, isCopy_ann "Ann", hfree, hfirst, hagain, hquiet _ () _ rfl rfl rfl hagain rfl⟩

/-- Ann with a list of tags. -/
def taggedAnn : Document :=
  person 1 "Ann" ++ [(.text "tags", .list [.text "vip"])]

/-- The first copy in a list, and a place inside of it by another spelling of its position. -/
def spelledTwice : List String :=
  ["staff.00.tags.²", "staff.0"]

/-- The payload brings a list to where the first column is read the second time, and its last
segment passes the digit test but is no number. -/
theorem not_refresh_again_spelledTwice :
    PrefixFree spelledTwice ∧ ann.id ≠ .null ∧ IsCopy ann.id (.dict taggedAnn) ∧
    ∃ d', refresh .single spelledTwice ann.id (.dict taggedAnn)
        [(.text "_id", .int 7), (.text "staff", .list [.dict (person 1 "Anne")])] = .ok d' ∧
      refresh .single spelledTwice ann.id (.dict taggedAnn) d' =
        .error (.notAnInteger "²" .malformed) :=
  ⟨by decide, nofun, ⟨_, rfl, rfl⟩, _, rfl, rfl⟩

end DocumentMapper.Sync
