import DocumentMapper.Model.EmbeddedList
import DocumentMapper.Proofs.Path.Modify
import DocumentMapper.Proofs.Path.Writing
import DocumentMapper.Proofs.Value.Equivalence

/-!
# Embedded lists as ordered maps

A list of embedded values is the list of the values of a map from identities to values, in the order
in which the identities came. Reassociating writes an entry of the map and disassociating takes one
out. A value that takes the place of another one stands under the key of the first one, which is
the same as its own identity but may be of another kind; that the map and the list agree
nevertheless rests on equality being an equivalence.
-/

namespace DocumentMapper.EmbeddedList

open Value

variable {d m : Document} {column : String} {items : List Value} {key v : Value}

/-! ## Lists and maps -/

/-- Writing an entry puts its value in the place of the first value under the same key, or at the
end. -/
theorem values_put {f : Value → Bool} (h : ∀ e ∈ m, f e.2 = e.1.same key) :
    (m.put key v).map (·.2) =
      match (m.map (·.2)).findIdx? f with
      | some i => (m.map (·.2)).set i v
      | none => m.map (·.2) ++ [v] := by
  induction m with
  | nil => rfl
  | cons e rest ih =>
    obtain ⟨k, old⟩ := e
    obtain ⟨hhead, hrest⟩ := List.forall_mem_cons.1 h
    rw [Document.put, List.map_cons, List.findIdx?_cons, hhead]
    by_cases hsame : k.same key = true
    · simp [hsame]
    · rw [if_neg hsame, List.map_cons, ih hrest]
      simp only [hsame]
      cases (rest.map (·.2)).findIdx? f <;> rfl

/-- Taking an entry out of a map takes the first value under the key out of its list. -/
theorem values_erase {f : Value → Bool} (hdistinct : m.Distinct) (hsound : ∀ e ∈ m, e.1.Sound)
    (h : ∀ e ∈ m, f e.2 = e.1.same key) :
    (m.erase key).map (·.2) =
      match (m.map (·.2)).findIdx? f with
      | some i => (m.map (·.2)).eraseIdx i
      | none => m.map (·.2) := by
  induction m with
  | nil => rfl
  | cons e rest ih =>
    obtain ⟨k, old⟩ := e
    obtain ⟨hhead, hrest⟩ := List.forall_mem_cons.1 h
    obtain ⟨hk, hkeys⟩ := List.forall_mem_cons.1 hsound
    obtain ⟨hother, hdistinct⟩ := List.pairwise_cons.1 hdistinct
    rw [Document.erase, List.filter_cons, List.map_cons, List.findIdx?_cons, hhead]
    by_cases hsame : k.same key = true
    · -- No other entry has the key, since it would have the key of this one.
      have hnone : rest.filter (fun e => !e.1.same key) = rest := by
        refine List.filter_eq_self.2 fun e he => ?_
        rw [Bool.not_eq_true', Bool.eq_false_iff]
        intro hagain
        have hback := same_symm e.1 key (hkeys e he) hagain
        have hboth := same_trans k key e.1 hsame hback
        exact Bool.eq_false_iff.1 (hother e.1 (List.mem_map_of_mem he)) hboth
      simp [hsame, hnone]
    · have ih := ih hdistinct hkeys hrest
      rw [Document.erase] at ih
      simp only [hsame, Bool.not_false, if_true, List.map_cons, ih]
      cases (rest.map (·.2)).findIdx? f <;> rfl

/-! ## Identities -/

/-- A value that can be told from others: it can come up, and its identity is a number if it is one
at all. -/
structure Identified (v : Value) : Prop where
  sound : v.Sound
  number : ∀ x, identity v = .float x → Number.isNotANumber x = false

theorem sound_of_mem {e : Value × Value} (hd : SoundEntries d) (he : e ∈ d) : e.2.Sound := by
  induction d with
  | nil => cases he
  | cons head rest ih =>
    obtain ⟨-, hv, hrest⟩ := hd
    rcases List.mem_cons.1 he with rfl | he
    · exact hv
    · exact ih hrest he

namespace Identified

theorem sound_identity (hv : Identified v) : (identity v).Sound := by
  unfold identity
  split
  · next d =>
    simp only
    split
    · exact hv.sound
    · next hid =>
      cases hfind : d.find? fun e => e.1.same (.text "id") with
      | none => simp [Document.fieldOrNull, Document.field?, Document.get?, hfind, isNull] at hid
      | some e =>
        have hmem := List.mem_of_find?_eq_some hfind
        simpa [Document.fieldOrNull, Document.field?, Document.get?, hfind] using
          sound_of_mem hv.sound.2 hmem
  · exact hv.sound

theorem equal_eq_same (hv : Identified v) (w : Value) :
    (identity v).equal w = (identity v).same w := by
  cases hid : identity v with
  | float x =>
    have hnumber := hv.number x hid
    cases w with
    | float y => simp [equal, same, sameScalar, hnumber]
    | _ => rfl
  | _ => rfl

end Identified

/-- An entry with a value under its identity, or under another key that is the same. -/
structure Fits (e : Value × Value) : Prop where
  sound : e.1.Sound
  identified : Identified e.2
  same_eq : ∀ key, e.1.same key = (identity e.2).same key

theorem Fits.equal_eq {e : Value × Value} (h : Fits e) (key : Value) :
    (identity e.2).equal key = e.1.same key := by
  rw [h.identified.equal_eq_same, h.same_eq]

/-- A list of the values of a map. -/
structure Mirrors (items : List Value) (m : Document) : Prop where
  values : m.map (·.2) = items
  fits : ∀ e ∈ m, Fits e
  distinct : m.Distinct

/-- No two values have the same identity. -/
def Apart (items : List Value) : Prop :=
  items.Pairwise fun a b => (identity a).equal (identity b) = false

/-- The map of a list. -/
def mapOf (items : List Value) : Document :=
  items.map fun v => (identity v, v)

theorem mirrors_mapOf (hitems : ∀ v ∈ items, Identified v) (h : Apart items) :
    Mirrors items (mapOf items) where
  values := by
    rw [mapOf, List.map_map]
    exact List.map_id items
  fits := List.forall_mem_map.2 fun v hv =>
    ⟨(hitems v hv).sound_identity, hitems v hv, fun _ => rfl⟩
  distinct := by
    unfold Document.Distinct mapOf
    rw [List.map_map, List.pairwise_map]
    refine h.imp_of_mem fun ha _ hother => ?_
    rwa [(hitems _ ha).equal_eq_same] at hother

namespace Mirrors

theorem apart (h : Mirrors items m) : Apart items := by
  unfold Apart
  rw [← h.values, List.pairwise_map]
  refine (List.pairwise_map.1 h.distinct).imp_of_mem fun {a b} ha hb hother => ?_
  have hfits := h.fits a ha
  have hfits' := h.fits b hb
  rw [hfits.equal_eq, Bool.eq_false_iff]
  intro hsame
  -- The key of the second value equals its identity, so the first key would equal the second.
  have hback := same_symm _ _ hfits.sound hsame
  rw [← hfits'.same_eq] at hback
  exact Bool.eq_false_iff.1 hother (same_symm _ _ hfits'.sound hback)

theorem found (h : Mirrors items m) (v : Value) :
    ∀ e ∈ m, (identity e.2).equal (identity v) = e.1.same (identity v) :=
  fun e he => (h.fits e he).equal_eq _

/-- Writing an entry reassociates its value. -/
theorem put (h : Mirrors items m) (hv : Identified v) :
    Mirrors (match positionOf? v items with | some i => items.set i v | none => items ++ [v])
      (m.put (identity v) v) where
  values := by
    rw [values_put (f := fun item => (identity item).equal (identity v)) (h.found v), h.values]
    rfl
  fits := by
    have hnew : Fits (identity v, v) := ⟨hv.sound_identity, hv, fun _ => rfl⟩
    rcases Document.put_cases (identity v) v m with ⟨-, hput⟩ | ⟨first, k, old, last, hm, hk, hput⟩
    · rw [hput]
      exact List.forall_mem_append.2 ⟨h.fits, List.forall_mem_singleton.2 hnew⟩
    · have hfits := h.fits
      rw [hm] at hfits
      rw [hput]
      obtain ⟨hfirst, hrest⟩ := List.forall_mem_append.1 hfits
      obtain ⟨hold, hlast⟩ := List.forall_mem_cons.1 hrest
      have hkept : Fits (k, v) := ⟨hold.sound, hv, same_congr hold.sound hk⟩
      exact List.forall_mem_append.2 ⟨hfirst, List.forall_mem_cons.2 ⟨hkept, hlast⟩⟩
  distinct := h.distinct.put

/-- Taking an entry out disassociates its value. -/
theorem erase (h : Mirrors items m) (v : Value) :
    Mirrors (match positionOf? v items with | some i => items.eraseIdx i | none => items)
      (m.erase (identity v)) where
  values := by
    have hsound : ∀ e ∈ m, e.1.Sound := fun e he => (h.fits e he).sound
    rw [values_erase (f := fun item => (identity item).equal (identity v)) h.distinct hsound
      (h.found v), h.values]
    rfl
  fits e he := h.fits e (List.mem_of_mem_filter he)
  distinct := h.distinct.sublist (List.filter_sublist.map _)

end Mirrors

/-! ## Calls -/

/-- A call that changes an embedded list. -/
inductive Change where
  | reassociate (v : Value)
  | disassociate (v : Value)

namespace Change

def value : Change → Value
  | reassociate v | disassociate v => v

def apply (column : String) (d : Document) : Change → Except Error Document
  | reassociate v => EmbeddedList.reassociate d column v
  | disassociate v => EmbeddedList.disassociate d column v

/-- What a call does to the map. -/
def onMap (m : Document) : Change → Document
  | reassociate v => m.put (identity v) v
  | disassociate v => m.erase (identity v)

end Change

/-- A column that can be written and holds a list; for an empty one it may hold nothing. -/
structure Holds (d : Document) (column : String) (items : List Value) : Prop where
  settable : ∃ v d', d.putColumn column v = .ok d'
  content : d.columnD column .null = .ok (.list items) ∨
    items = [] ∧ d.columnD column .null = .ok .null

namespace Holds

/-- A list can be put into such a column, which then holds it. -/
theorem put (h : Holds d column items) (after : List Value) :
    ∃ d', d.putColumn column (.list after) = .ok d' ∧ Holds d' column after := by
  obtain ⟨v, d₁, hsettable⟩ := h.settable
  obtain ⟨whole, -, hdirect⟩ :=
    Path.exists_put_put (Document.putColumn_eq_ok.1 hsettable) (.list after)
  have hput : d.putColumn column (.list after) = .ok whole.entries := by
    rw [Document.putColumn, hdirect]
    rfl
  have hread : Path.get? (.dict whole.entries) (Path.ofText column) = .ok (some (.list after)) :=
    Path.get?_put_self (Document.putColumn_eq_ok.1 hput)
  have hself : Document.putColumn whole.entries column (.list after) = .ok whole.entries :=
    Document.putColumn_eq_ok.2 (Path.put_of_get?_self hread)
  refine ⟨_, hput, ⟨_, _, hself⟩, .inl ?_⟩
  rw [Document.columnD, Path.getD, hread]
  rfl

theorem current_eq (h : Holds d column items) : current d column = .ok (.list items) := by
  unfold current
  rcases h.content with hlist | ⟨rfl, hnull⟩
  · cases items <;> simp [hlist, orElse, isTruthy, bind, Except.bind]
  · simp [hnull, orElse, isTruthy, bind, Except.bind]

end Holds

/-- A call to disassociate leaves a column alone that holds no list. -/
theorem disassociate_of_not_list {other : Value} (h : d.columnD column .null = .ok other)
    (hother : other.isList = false) (v : Value) : disassociate d column v = .ok d := by
  unfold disassociate
  rw [h]
  cases v <;> cases other <;> first | rfl | cases hother

/-- One call does to the list what it does to the map. -/
theorem exists_apply (h : Holds d column items) (hm : Mirrors items m) {change : Change}
    (hv : Identified change.value) (hnull : change.value ≠ .null) :
    ∃ d' after, change.apply column d = .ok d' ∧ Holds d' column after ∧
      Mirrors after (change.onMap m) := by
  cases change with
  | reassociate v =>
    obtain ⟨d', hput, hholds⟩ := h.put
      (match positionOf? v items with | some i => items.set i v | none => items ++ [v])
    refine ⟨d', _, ?_, hholds, hm.put hv⟩
    have hpresent : v.isNull = false := by
      cases v <;> first | rfl | exact absurd rfl hnull
    simp only [Change.apply, reassociate, hpresent, h.current_eq, parts, bind, Except.bind,
      Bool.false_eq_true, if_false]
    cases hposition : positionOf? v items <;> rw [hposition] at hput <;> exact hput
  | disassociate v =>
    rcases h.content with hlist | ⟨rfl, hnothing⟩
    · obtain ⟨d', hput, hholds⟩ := h.put
        (match positionOf? v items with | some i => items.eraseIdx i | none => items)
      refine ⟨d', _, ?_, hholds, hm.erase v⟩
      simp only [Change.apply, disassociate, hlist, bind, Except.bind]
      split
      · exact absurd rfl hnull
      · next heq =>
        cases heq
        exact hput
      · next hother => exact absurd rfl (hother items)
    · exact ⟨d, _, disassociate_of_not_list hnothing rfl v, h, hm.erase v⟩

/-- Calls one after another do to the list what they do to the map of the list, and no two values
of the list ever have the same identity. -/
theorem changes_mirror_map (h : Holds d column items) (hitems : ∀ v ∈ items, Identified v)
    (hapart : Apart items) {changes : List Change}
    (hchanges : ∀ change ∈ changes, Identified change.value ∧ change.value ≠ .null) :
    (∃ d' after, changes.foldlM (Change.apply column) d = .ok d' ∧ Holds d' column after ∧
      after = (changes.foldl Change.onMap (mapOf items)).map (·.2) ∧ Apart after) ∧
    ∀ (d : Document) v other, d.columnD column .null = .ok other → other.isList = false →
      disassociate d column v = .ok d := by
  have hrun : ∃ d' after, changes.foldlM (Change.apply column) d = .ok d' ∧
      Holds d' column after ∧ Mirrors after (changes.foldl Change.onMap (mapOf items)) := by
    have hmirrors := mirrors_mapOf hitems hapart
    generalize mapOf items = m at hmirrors
    clear hitems hapart
    induction changes generalizing d items m with
    | nil => exact ⟨d, items, rfl, h, hmirrors⟩
    | cons change rest ih =>
      obtain ⟨⟨hv, hnull⟩, hrest⟩ := List.forall_mem_cons.1 hchanges
      obtain ⟨d₁, middle, happly, hholds, hmiddle⟩ := exists_apply h hmirrors hv hnull
      obtain ⟨d', after, hfold, hend⟩ := ih hholds hrest _ hmiddle
      exact ⟨d', after, Outcome.foldlM_cons_eq_ok.2 ⟨d₁, happly, hfold⟩, hend⟩
  obtain ⟨d', after, hfold, hholds, hmirrors⟩ := hrun
  exact ⟨⟨d', after, hfold, hholds, hmirrors.values.symm, hmirrors.apart⟩,
    fun d v other hother hlist => disassociate_of_not_list hother hlist v⟩

def pen : Value :=
  .dict [(.text "id", .int 1), (.text "name", .text "pen")]

def ink : Value :=
  .dict [(.text "id", .bool true), (.text "name", .text "ink")]

theorem identified_pen : Identified pen := by
  refine ⟨?_, fun x h => nomatch h⟩
  simp [pen, Sound, SoundEntries, Document.Distinct, same, sameScalar, unhashable?]

theorem identified_ink : Identified ink := by
  refine ⟨?_, fun x h => nomatch h⟩
  simp [ink, Sound, SoundEntries, Document.Distinct, same, sameScalar, unhashable?]

theorem identified_text (s : String) : Identified (.text s) :=
  ⟨trivial, fun _ h => nomatch h⟩

/-- The ink takes the place of the pen, since its id is the same number, before the tape goes and
the glue comes. -/
theorem changes_mirror_map_goods : ∃ d',
    [Change.reassociate ink, .disassociate (.text "tape"), .reassociate (.text "glue")].foldlM
        (Change.apply "goods") [(.text "goods", .list [pen, .text "tape"])] = .ok d' ∧
      Holds d' "goods" [ink, .text "glue"] ∧ Apart [ink, .text "glue"] ∧
      disassociate [(.text "goods", .int 3)] "goods" pen = .ok [(.text "goods", .int 3)] := by
  have hholds : Holds [(.text "goods", .list [pen, .text "tape"])] "goods" [pen, .text "tape"] :=
    ⟨⟨.null, _, rfl⟩, .inl rfl⟩
  have hitems : ∀ v ∈ [pen, .text "tape"], Identified v :=
    List.forall_mem_cons.2 ⟨identified_pen, List.forall_mem_singleton.2 (identified_text _)⟩
  have hapart : Apart [pen, .text "tape"] :=
    List.pairwise_pair.2 rfl
  have hchanges : ∀ change ∈
      [Change.reassociate ink, .disassociate (.text "tape"), .reassociate (.text "glue")],
      Identified change.value ∧ change.value ≠ .null :=
    List.forall_mem_cons.2 ⟨⟨identified_ink, nofun⟩, List.forall_mem_cons.2
      ⟨⟨identified_text _, nofun⟩, List.forall_mem_singleton.2 ⟨identified_text _, nofun⟩⟩⟩
  obtain ⟨⟨d', after, hfold, hafter, rfl, hend⟩, hother⟩ :=
    changes_mirror_map hholds hitems hapart hchanges
  exact ⟨d', hfold, hafter, hend, hother _ _ (.int 3) rfl rfl⟩

end DocumentMapper.EmbeddedList
