import DocumentMapper.Model.Casting
import DocumentMapper.Proofs.Model.Sample
import DocumentMapper.Proofs.Path.Modify
import DocumentMapper.Proofs.Procedure
import DocumentMapper.Proofs.Value.Recasting

/-!
# Casting a column again

A named cast of a column that holds no records is a matter of the record alone: what stands there
is read, cast as a whole or element by element, and put back. Forcing the cast once more leaves the
record as it is exactly where the cast keeps what it has made.
-/

namespace DocumentMapper

open Outcome

/-- Whether a column differs from what was last stored in it. -/
def Record.differs (r : Record) (column : String) : Except Error Bool := do
  let now ← r.data.columnD column .null
  let before ← r.stored.columnD column .null
  .ok (!now.equal before)

namespace Casting

variable {σ : Type} {ctx : Context σ} {r r' : Record} {column type : String} {s s' : σ}
  {items : List Value}

/-- What stands in a column without records, cast to a named kind. -/
def contentCast (column type : String) : Value → Except Error Value
  | .list items =>
    if type == "array" || type == "location" then named column type (.list items)
    else Value.list <$> items.mapM (named column type)
  | v => named column type v

/-- Whether casting leaves alone what it may have put into a column. -/
def keepsContent (type : String) : Value → Bool
  | .list items =>
    if type == "array" || type == "location" then (CastKind.ofName type).keeps (.list items)
    else items.all (CastKind.ofName type).keeps
  | v => (CastKind.ofName type).keeps v

theorem named_eq_ok {v w : Value} :
    named column type v = .ok w ↔ v.cast (CastKind.ofName type) = .ok w :=
  mapError_eq_ok

/-- A value cast to a named kind. Records become their embedded parts under any cast. -/
def castPart (ctx : Context σ) (column type : String) (v : Value) : Except Error Value :=
  match Record.ofValue? v with
  | some other => other.embeddedValue (ctx.model other.model).toSchema
  | none => named column type v

/-- What stands in a column, cast to a named kind, with the records in it embedded. -/
def converted (ctx : Context σ) (column type : String) : Value → Except Error Value
  | .list items =>
    if type == "array" || type == "location" then castPart ctx column type (.list items)
    else Value.list <$> items.mapM (castPart ctx column type)
  | v => castPart ctx column type v

theorem castPart_of_ofValue? (ctx : Context σ) {v : Value} (hv : Record.ofValue? v = none) :
    castPart ctx column type v = named column type v := by
  rw [castPart, hv]

theorem converted_of_bare {v : Value} (hv : v.Bare) :
    converted ctx column type v = contentCast column type v := by
  cases v with
  | list items =>
    have hitems : items.mapM (castPart ctx column type) = items.mapM (named column type) :=
      mapM_congr fun u hu => castPart_of_ofValue? ctx (hv u hu)
    rw [converted, contentCast, hitems, castPart_of_ofValue? ctx rfl]
  | _ => exact castPart_of_ofValue? ctx hv

theorem run_castValue (ctx : Context σ) (r : Record) (column type : String) (v : Value) (s : σ) :
    (castValue ctx r column (.named type) v).run s = (castPart ctx column type v, s) := by
  unfold castValue castPart
  cases Record.ofValue? v <;> rfl

theorem run_castItems (ctx : Context σ) (r : Record) (column type : String)
    (items : List Value) (s : σ) :
    (castItems ctx r column (.named type) items).run s =
      (items.mapM (castPart ctx column type), s) := by
  induction items with
  | nil => rfl
  | cons v rest ih =>
    have hhead := run_castValue ctx r column type v s
    rw [castItems, List.mapM_cons]
    cases hcast : castPart ctx column type v with
    | error e =>
      rw [hcast] at hhead
      exact Action.run_bind_error hhead
    | ok w =>
      rw [hcast] at hhead
      refine (Action.run_bind_ok hhead).trans ?_
      cases hmore : rest.mapM (castPart ctx column type) with
      | error e =>
        rw [hmore] at ih
        exact Action.run_bind_error ih
      | ok ws =>
        rw [hmore] at ih
        exact Action.run_bind_ok ih

/-- A named cast is a matter of the values alone, whatever they are. -/
theorem run_castContent_named (ctx : Context σ) (r : Record) (column type : String) (v : Value)
    (s : σ) : (castContent ctx r column (.named type) v).run s =
      (converted ctx column type v, s) := by
  cases v with
  | list items =>
    unfold castContent converted
    by_cases hwhole : (type == "array" || type == "location") = true
    · have htakes : takesList (.named type : CastRule σ) = true := hwhole
      simp only [if_pos htakes, if_pos hwhole]
      exact run_castValue ctx r column type (.list items) s
    · have htakes : ¬ takesList (.named type : CastRule σ) = true := hwhole
      have hitems := run_castItems ctx r column type items s
      simp only [if_neg htakes, if_neg hwhole]
      rw [← bind_pure_comp, Action.run_bind, hitems]
      cases items.mapM (castPart ctx column type) <;> rfl
  | _ => simp only [castContent, converted, run_castValue]

theorem contentCast_of_isList {v : Value} (hv : v.isList = false) :
    contentCast column type v = named column type v := by
  cases v with
  | list items => cases hv
  | _ => rfl

theorem keepsContent_of_isList {v : Value} (hv : v.isList = false) :
    keepsContent type v = (CastKind.ofName type).keeps v := by
  cases v with
  | list items => cases hv
  | _ => rfl

theorem ofName_ne_array (h : ¬ (type == "array" || type == "location") = true) :
    CastKind.ofName type ≠ .array := by
  intro harray
  unfold CastKind.ofName at harray
  split at harray <;> simp_all

theorem contentCast_of_whole (h : (type == "array" || type == "location") = true) :
    contentCast column type = named column type := by
  funext v
  unfold contentCast
  split
  · exact if_pos h
  · rfl

theorem keepsContent_of_whole (h : (type == "array" || type == "location") = true) :
    keepsContent type = (CastKind.ofName type).keeps := by
  funext v
  unfold keepsContent
  split
  · exact if_pos h
  · rfl

theorem contentCast_items_iff (h : ¬ (type == "array" || type == "location") = true)
    (hagain : ∀ u ∈ items, u.cast (CastKind.ofName type) = .ok u ↔
      (CastKind.ofName type).keeps u = true) :
    contentCast column type (.list items) = .ok (.list items) ↔
      keepsContent type (.list items) = true := by
  rw [contentCast, if_neg h, keepsContent, if_neg h, List.all_eq_true, map_eq_ok]
  simp only [Value.list.injEq, exists_eq_right, mapM_eq_self_iff, named_eq_ok]
  exact forall₂_congr hagain

/-- A list that was made out of no list is one of an object, and its elements were not cast; every
other list was cast element by element. -/
theorem contentCast_again {v w : Value} (h : contentCast column type v = .ok w) :
    contentCast column type w = .ok w ↔ keepsContent type w = true := by
  by_cases hwhole : (type == "array" || type == "location") = true
  · rw [contentCast_of_whole hwhole] at h ⊢
    rw [keepsContent_of_whole hwhole, named_eq_ok]
    exact Value.cast_again (named_eq_ok.1 h)
  by_cases hv : v.isList = true
  · obtain ⟨olds, rfl⟩ := Value.isList_iff.1 hv
    rw [contentCast, if_neg hwhole] at h
    obtain ⟨news, hnews, rfl⟩ := map_eq_ok.1 h
    refine contentCast_items_iff hwhole fun u hu => ?_
    obtain ⟨old, -, hold⟩ := exists_of_mem_mapM hnews hu
    exact Value.cast_again (named_eq_ok.1 hold)
  · have hsingle : v.isList = false := by simpa using hv
    have hone : v.cast (CastKind.ofName type) = .ok w :=
      named_eq_ok.1 ((contentCast_of_isList hsingle).symm.trans h)
    by_cases hw : w.isList = true
    · obtain ⟨news, rfl⟩ := Value.isList_iff.1 hw
      have hobject : CastKind.ofName type = .object := by
        obtain rfl | ⟨-, m, hdate, -⟩ | ⟨-, hsingle | hobject | harray⟩ := Value.cast_cases hone
        · exact absurd hw hv
        · cases hdate
        · cases hsingle
        · exact hobject
        · exact absurd harray (ofName_ne_array hwhole)
      refine contentCast_items_iff hwhole fun u _ => ?_
      rw [hobject]
      exact Value.cast_object_self u
    · have hother : w.isList = false := by simpa using hw
      rw [contentCast_of_isList hother, keepsContent_of_isList hother, named_eq_ok]
      exact Value.cast_again hone

theorem bare_of_contentCast {v w : Value} (hv : v.Bare) (h : contentCast column type v = .ok w) :
    w.Bare := by
  unfold contentCast at h
  split at h
  · next olds =>
    split at h
    · exact hv.cast (named_eq_ok.1 h)
    · obtain ⟨news, hnews, rfl⟩ := map_eq_ok.1 h
      intro u hu
      obtain ⟨old, hold, hone⟩ := exists_of_mem_mapM hnews hu
      exact Value.ofValue?_of_cast (hv old hold) (named_eq_ok.1 hone)
  · exact hv.cast (named_eq_ok.1 h)

/-- A record with one of its columns cast. -/
def castOnto (column type : String) (r : Record) : Except Error Record := do
  match ← r.data.column? column with
  | none => .ok r
  | some v => r.set column (← contentCast column type v)

theorem castOnto_some {v : Value} (h : r.data.column? column = .ok (some v)) :
    castOnto column type r = contentCast column type v >>= r.set column := by
  rw [castOnto, h]
  rfl

/-- Whether a column of a record is to be cast when the record is new or not. -/
def due (force new : Bool) (r : Record) (column : String) : Except Error Bool :=
  if force || new then .ok true else r.differs column

theorem run_castColumn_due (ctx : Context σ) (force : Bool) (r : Record) (column : String)
    (rule : CastRule σ) (s : σ) :
    (castColumn ctx force column rule).run (r, s) =
      match due force r.isNew r column with
      | .ok true => (castColumn ctx true column rule).run (r, s)
      | .ok false => (.ok (), r, s)
      | .error e => (.error e, r, s) := by
  cases force with
  | true => rfl
  | false =>
    have hdue : due false r.isNew r column = r.isColumnChanged column := rfl
    unfold castColumn
    rw [hdue, Action.run_bind_ok (Action.run_get (r, s)),
      Action.run_bind_ok (Action.run_get (r, s))]
    simp only [Bool.false_eq_true, if_false, if_true]
    cases r.isColumnChanged column with
    | error e => rfl
    | ok isDue => cases isDue <;> rfl

theorem run_castColumn_found {v : Value} (hv : r.data.column? column = .ok (some v)) (s : σ) :
    (castColumn ctx true column (.named type)).run (r, s) =
      match converted ctx column type v >>= r.set column with
      | .ok r' => (.ok (), r', s)
      | .error e => (.error e, r, s) := by
  have hbeside := Action.run_second (run_castContent_named ctx r column type v s) r
  unfold castColumn
  rw [Action.run_bind_ok (Action.run_get (r, s))]
  simp only [if_true, pure_bind, hv]
  rw [Action.run_bind_ok (Action.run_ofExcept _ _)]
  cases hcontent : converted ctx column type v with
  | error e =>
    rw [hcontent] at hbeside
    exact Action.run_bind_error hbeside
  | ok w =>
    rw [hcontent] at hbeside
    have hnext : (Except.ok w >>= r.set column) = r.set column w := rfl
    rw [hnext]
    refine (Action.run_bind_ok hbeside).trans ?_
    cases r.set column w <;> rfl

theorem run_castColumn (hbare : ∀ v, r.data.column? column = .ok (some v) → v.Bare) (s : σ) :
    (castColumn ctx true column (.named type)).run (r, s) =
      match castOnto column type r with
      | .ok r' => (.ok (), r', s)
      | .error e => (.error e, r, s) := by
  cases hcolumn : r.data.column? column with
  | error e =>
    rw [castOnto, castColumn, Action.run_bind_ok (Action.run_get (r, s))]
    simp only [if_true, pure_bind, hcolumn]
    rfl
  | ok found =>
    cases found with
    | none =>
      rw [castOnto, castColumn, Action.run_bind_ok (Action.run_get (r, s))]
      simp only [if_true, pure_bind, hcolumn]
      rfl
    | some v =>
      rw [run_castColumn_found hcolumn, castOnto_some hcolumn,
        converted_of_bare (hbare v hcolumn)]

theorem castOnto_self_iff {w : Value} (h : r.data.column? column = .ok (some w)) :
    castOnto column type r = .ok r ↔ contentCast column type w = .ok w := by
  rw [castOnto_some h, bind_eq_ok]
  constructor
  · rintro ⟨w', hw', hset⟩
    obtain ⟨data, hput, hr⟩ := bind_eq_ok.1 hset
    -- What was put there is what stands there.
    have hread : data.column? column = .ok (some w') :=
      Path.get?_put_self (Document.putColumn_eq_ok.1 hput)
    have hdata : data = r.data := congrArg Record.data (Except.ok.inj hr)
    rw [hdata, h] at hread
    cases hread
    exact hw'
  · intro hw
    have hput : r.data.putColumn column w = .ok r.data :=
      Document.putColumn_eq_ok.2 (Path.put_of_get?_self h)
    exact ⟨w, hw, bind_eq_ok.2 ⟨r.data, hput, rfl⟩⟩

/-- What stands in a column after it was cast. -/
theorem castOnto_cases (h : castOnto column type r = .ok r') :
    (r' = r ∧ r.data.column? column = .ok none) ∨
      ∃ v w, r.data.column? column = .ok (some v) ∧ contentCast column type v = .ok w ∧
        r'.data.column? column = .ok (some w) := by
  obtain ⟨found, hcolumn, h⟩ := bind_eq_ok.1 h
  cases found with
  | none =>
    cases h
    exact .inl ⟨rfl, hcolumn⟩
  | some v =>
    obtain ⟨w, hw, hset⟩ := bind_eq_ok.1 h
    obtain ⟨data, hput, hr'⟩ := bind_eq_ok.1 hset
    cases hr'
    exact .inr ⟨v, w, hcolumn, hw, Path.get?_put_self (Document.putColumn_eq_ok.1 hput)⟩

theorem castOnto_again (h : castOnto column type r = .ok r') :
    castOnto column type r' = .ok r' ↔
      ∀ w, r'.data.column? column = .ok (some w) → keepsContent type w = true := by
  obtain ⟨rfl, hnone⟩ | ⟨v, w, -, hw, hread⟩ := castOnto_cases h
  · refine iff_of_true h fun w hw => ?_
    cases hnone.symm.trans hw
  · rw [castOnto_self_iff hread, contentCast_again hw]
    constructor
    · intro hkeeps w' hw'
      cases hread.symm.trans hw'
      exact hkeeps
    · intro hkeeps
      exact hkeeps w hread

theorem bare_of_castOnto (hbare : ∀ v, r.data.column? column = .ok (some v) → v.Bare)
    (h : castOnto column type r = .ok r') :
    ∀ w, r'.data.column? column = .ok (some w) → w.Bare := by
  obtain ⟨rfl, -⟩ | ⟨v, w, hcolumn, hw, hread⟩ := castOnto_cases h
  · exact hbare
  · intro w' hw'
    cases hread.symm.trans hw'
    exact bare_of_contentCast (hbare v hcolumn) hw

/-- A value that was cast is made by the cast again exactly where the cast keeps it, and so is the
content of a column. -/
theorem recast_iff :
    (∀ (kind : CastKind) (v w : Value), v.cast kind = .ok w →
      (w.cast kind = .ok w ↔ kind.keeps w = true)) ∧
    ∀ (ctx : Context σ) (column type : String) (r r' : Record) (s s' : σ),
      (∀ v, r.data.column? column = .ok (some v) → v.Bare) →
      (castColumn ctx true column (.named type)).run (r, s) = (.ok (), r', s') →
      ((castColumn ctx true column (.named type)).run (r', s') = (.ok (), r', s') ↔
        ∀ w, r'.data.column? column = .ok (some w) → keepsContent type w = true) := by
  refine ⟨fun kind v w => Value.cast_again, fun ctx column type r r' s s' hbare h => ?_⟩
  rw [run_castColumn hbare] at h
  cases honce : castOnto column type r with
  | error e =>
    rw [honce] at h
    cases h
  | ok r₁ =>
    rw [honce] at h
    cases h
    rw [run_castColumn (bare_of_castOnto hbare honce), ← castOnto_again honce]
    cases castOnto column type r' with
    | error e => exact iff_of_false nofun nofun
    | ok r₂ => simp

/-- A stored shop with a text for its tags that is the JSON of a text. -/
def taggedShop : Record :=
  .ofData "Shop" [(.text "_id", .int 7), (.text "tags", .text "\"[1]\"")]

theorem recast_iff_tags :
    ((Value.text "null").cast .object = .ok .null ∧ ¬ Value.null.cast .object = .ok .null) ∧
    ∃ r', (castColumn Context.quiet true "tags" (.named "array")).run (taggedShop, ()) =
        (.ok (), r', ()) ∧
      r'.data.column? "tags" = .ok (some (.text "[1]")) ∧
      ¬ (castColumn Context.quiet true "tags" (.named "array")).run (r', ()) =
        (.ok (), r', ()) := by
  obtain ⟨hvalue, hcolumn⟩ := recast_iff (σ := Unit)
  have hbare : ∀ v, taggedShop.data.column? "tags" = .ok (some v) → v.Bare := by
    intro v hv
    cases hv
    rfl
  refine ⟨⟨rfl, fun h => ?_⟩, _, rfl, rfl, fun h => ?_⟩
  · exact absurd ((hvalue .object (.text "null") .null rfl).1 h) (by decide)
  · exact absurd ((hcolumn .quiet "tags" "array" taggedShop _ () () hbare rfl).1 h _ rfl)
      (by decide)

/-- A point is not taken for the location it is: the part under the number zero is missing. -/
theorem not_recast_location :
    ∃ w, (Value.list [.text "1.5", .int 2]).cast .location = .ok w ∧
      w.cast .location = .error (.missingKey (.int 0)) :=
  ⟨_, rfl, rfl⟩

end Casting

end DocumentMapper
