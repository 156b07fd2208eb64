import DocumentMapper.Proofs.Model.Recasting
import DocumentMapper.Proofs.Path.Independence

/-!
# The order of casts

Casts of columns that are independent of each other hardly see each other: what one of them reads
was not touched by those before it. The one thing that they share is whether the record is new, on
which depends what is due, and which changes when the cast of the identifier of the database makes
something of nothing or nothing of something. So the columns before the identifier are cast as those
of the record that was handed in, the columns behind it as those of the record that is left, and the
order of the declaration makes no difference exactly if that makes none.
-/

namespace DocumentMapper

open Outcome

/-! ## Records with a column changed -/

namespace Record

variable {r : Record} {column : String} {found : Option Value}

/-- The record with changes made to its data. -/
def modified (r : Record) (changes : List Path.Change) : Record :=
  { r with data := (Path.modifyEach changes (.dict r.data)).entries }

/-- The record with something else in the place of what stands in a column, if there is anything. -/
def withContent (r : Record) (column : String) (found : Option Value) : Record :=
  r.modified [(Path.ofText column, found.getD)]

theorem dict_data_withContent (r : Record) (column : String) (found : Option Value) :
    Value.dict (r.withContent column found).data =
      Path.modify found.getD (Path.ofText column) (.dict r.data) :=
  Path.dict_entries_modify (Path.ofText_ne_nil column) _ _

theorem modified_cons (r : Record) (column : String) (found : Option Value)
    (rest : List Path.Change) :
    r.modified ((Path.ofText column, found.getD) :: rest) =
      (r.withContent column found).modified rest := by
  rw [modified, modified, dict_data_withContent]
  rfl

theorem column?_withContent_of_independent {other : String}
    (h : Path.Independent (.dict r.data) (Path.ofText column) (Path.ofText other)) :
    (r.withContent column found).data.column? other = r.data.column? other := by
  rw [Document.column?, dict_data_withContent]
  exact h.get?_modify _

theorem isNew_withContent (h : column ≠ "_id") (found : Option Value) :
    (r.withContent column found).isNew = r.isNew := by
  have hkey : (r.withContent column found).key.isTruthy = r.key.isTruthy :=
    Path.isTruthy_fieldOrNull_modify h _ _
  rw [isNew, hkey]
  rfl

theorem set_eq_withContent {v : Value} (h : r.data.column? column = .ok (some v)) (w : Value) :
    r.set column w = .ok (r.withContent column (some w)) := by
  rw [set, Document.putColumn]
  have hput := Path.put_of_get? h fun _ => w
  rw [hput]
  rfl

theorem withContent_self (h : r.data.column? column = .ok found) :
    r.withContent column found = r := by
  have hfixed : Path.modify found.getD (Path.ofText column) (.dict r.data) = .dict r.data := by
    refine Path.modify_of_fixed fun c hc => ?_
    cases h.symm.trans hc
    rfl
  rw [withContent, modified, Path.modifyEach_cons, hfixed]
  rfl

end Record

namespace Casting

variable {σ : Type} {ctx : Context σ} {r r₁ r' : Record} {s s' : σ} {force new later : Bool}
  {column type : String} {found : Option Value} {casts : List (String × String)}
  {x : String × String}

/-! ## One turn -/

/-- What stands in a column, cast to the kind that is named. -/
def castAt (r : Record) (x : String × String) : Except Error (Option Value) := do
  match ← r.data.column? x.1 with
  | some v => some <$> contentCast x.1 x.2 v
  | none => .ok none

/-- What stands in a column after its turn, told from the record before all turns and from whether
the record is new at this one. -/
def contentAfter (force new : Bool) (r : Record) (x : String × String) :
    Except Error (Option Value) := do
  if ← due force new r x.1 then castAt r x else r.data.column? x.1

theorem contentAfter_of_due {isDue : Bool} (h : due force new r x.1 = .ok isDue) :
    contentAfter force new r x = if isDue then castAt r x else r.data.column? x.1 := by
  rw [contentAfter, h]
  rfl

theorem contentAfter_congr (hstored : r₁.stored = r.stored)
    (h : r₁.data.column? x.1 = r.data.column? x.1) :
    contentAfter force new r₁ x = contentAfter force new r x := by
  have hcolumn : r₁.data.columnD x.1 .null = r.data.columnD x.1 .null := by
    have hget : Path.get? (.dict r₁.data) (Path.ofText x.1) =
      Path.get? (.dict r.data) (Path.ofText x.1) := h
    rw [Document.columnD, Document.columnD, Path.getD, Path.getD, hget]
  simp only [contentAfter, castAt, due, Record.differs, hstored, h, hcolumn]

theorem exists_column?_of_due (h : due force new r column = .ok false) :
    ∃ found, r.data.column? column = .ok found := by
  unfold due at h
  split at h
  · cases h
  · obtain ⟨now, hnow, -⟩ := bind_eq_ok.1 h
    obtain ⟨found, hfound, -⟩ := bind_eq_ok.1 hnow
    exact ⟨found, hfound⟩

theorem map_getD_of_self (h : r.data.column? column = .ok found) :
    Option.map found.getD <$> r.data.column? column = .ok found := by
  rw [h]
  cases found <;> rfl

/-- A turn leaves something in a column exactly if there was something. -/
theorem content_of_contentAfter (h : contentAfter force new r x = .ok found) :
    Option.map found.getD <$> r.data.column? x.1 = .ok found := by
  obtain ⟨isDue, -, h⟩ := bind_eq_ok.1 h
  cases isDue with
  | false => exact map_getD_of_self h
  | true =>
    obtain ⟨old, hold, h⟩ := bind_eq_ok.1 h
    cases old with
    | none =>
      cases h
      exact map_getD_of_self hold
    | some v =>
      obtain ⟨w, -, rfl⟩ := map_eq_ok.1 h
      rw [hold]
      rfl

theorem castOnto_eq (r : Record) (x : String × String) :
    castOnto x.1 x.2 r = r.withContent x.1 <$> castAt r x := by
  rw [castOnto, castAt]
  cases hfound : r.data.column? x.1 with
  | error e => rfl
  | ok found =>
    cases found with
    | none => exact congrArg Except.ok (Record.withContent_self hfound).symm
    | some v =>
      show contentCast x.1 x.2 v >>= r.set x.1 =
        r.withContent x.1 <$> some <$> contentCast x.1 x.2 v
      cases contentCast x.1 x.2 v with
      | error e => rfl
      | ok w => exact Record.set_eq_withContent hfound w

/-- A turn does to the record what is told of the column. -/
theorem run_castColumn_turn (ctx : Context σ) (force : Bool)
    (hbare : ∀ v, r.data.column? x.1 = .ok (some v) → v.Bare) (s : σ) :
    (castColumn ctx force x.1 (.named x.2)).run (r, s) =
      match contentAfter force r.isNew r x with
      | .ok found => (.ok (), r.withContent x.1 found, s)
      | .error e => (.error e, r, s) := by
  rw [run_castColumn_due]
  cases hdue : due force r.isNew r x.1 with
  | error e =>
    rw [contentAfter, hdue]
    rfl
  | ok isDue =>
    rw [contentAfter_of_due hdue]
    cases isDue with
    | true =>
      rw [if_pos rfl]
      refine (run_castColumn hbare s).trans ?_
      rw [castOnto_eq]
      cases castAt r x <;> rfl
    | false =>
      obtain ⟨found, hfound⟩ := exists_column?_of_due hdue
      simp [hfound, Record.withContent_self hfound]

/-! ## All turns -/

/-- The casts with whether the record is new when it is their turn, given whether it is at first and
whether it is once its identifier was cast. -/
def turns (new later : Bool) : List (String × String) → List (Bool × String × String)
  | [] => []
  | x :: rest => (new, x) :: turns (if x.1 = "_id" then later else new) later rest

theorem map_snd_turns (new later : Bool) (casts : List (String × String)) :
    (turns new later casts).map (·.2) = casts := by
  induction casts generalizing new with
  | nil => rfl
  | cons x rest ih => rw [turns, List.map_cons, ih]

theorem mem_turns_append (new later : Bool) (front : List (String × String))
    (x : String × String) (back : List (String × String)) :
    (if "_id" ∈ front.map (·.1) then later else new, x) ∈
      turns new later (front ++ x :: back) := by
  induction front generalizing new with
  | nil => exact List.mem_cons_self
  | cons y front ih =>
    have hnext := ih (if y.1 = "_id" then later else new)
    have hlabel : (if "_id" ∈ (y :: front).map (·.1) then later else new) =
        if "_id" ∈ front.map (·.1) then later else if y.1 = "_id" then later else new := by
      simp only [List.map_cons, List.mem_cons, eq_comm (a := "_id")]
      split_ifs <;> simp_all
    rw [hlabel]
    exact List.mem_cons_of_mem _ hnext

theorem mem_of_mem_turns {turn : Bool × String × String} (h : turn ∈ turns new later casts) :
    turn.2 ∈ casts := by
  rw [← map_snd_turns new later casts]
  exact List.mem_map_of_mem h

/-- A record is new at a turn as it is at first, or, at one of another column than the identifier,
as it is once that was cast. -/
theorem turns_cases (h : casts.Pairwise fun x y => x.1 ≠ y.1) {turn : Bool × String × String}
    (hturn : turn ∈ turns new later casts) :
    turn.1 = new ∨ turn.1 = later ∧ turn.2.1 ≠ "_id" := by
  induction casts generalizing new with
  | nil => cases hturn
  | cons x rest ih =>
    obtain ⟨hx, hrest⟩ := List.pairwise_cons.1 h
    rcases List.mem_cons.1 hturn with rfl | hmem
    · exact .inl rfl
    · have hcases := ih hrest hmem
      by_cases hid : x.1 = "_id"
      · rw [if_pos hid] at hcases hmem
        have hother : turn.2.1 ≠ "_id" := by
          rw [← hid]
          exact Ne.symm (hx _ (mem_of_mem_turns hmem))
        rcases hcases with hlabel | ⟨hlabel, -⟩
        · exact .inr ⟨hlabel, hother⟩
        · exact .inr ⟨hlabel, hother⟩
      · rwa [if_neg hid] at hcases

/-- What a turn does to its column. -/
def changeAt (force : Bool) (r : Record) (turn : Bool × String × String) : Path.Change :=
  (Path.ofText turn.2.1, (contentAfter force turn.1 r turn.2).toOption.join.getD)

/-- Whether turns succeed, told from the record `r` before all of them, and make a record of the one
that they come to. -/
def Yields (force : Bool) (r : Record) (course : List (Bool × String × String))
    (r₁ r' : Record) : Prop :=
  (∀ turn ∈ course, ∃ found, contentAfter force turn.1 r turn.2 = .ok found) ∧
    r' = r₁.modified (course.map (changeAt force r))

section Yields

variable {course : List (Bool × String × String)} {turn : Bool × String × String}

theorem changeAt_eq (h : contentAfter force turn.1 r turn.2 = .ok found) :
    changeAt force r turn = (Path.ofText turn.2.1, found.getD) := by
  rw [changeAt, h]
  rfl

theorem yields_nil_iff : Yields force r [] r₁ r' ↔ r' = r₁ :=
  and_iff_right (List.forall_mem_nil _)

theorem yields_cons_iff (h : contentAfter force turn.1 r turn.2 = .ok found) :
    Yields force r (turn :: course) r₁ r' ↔
      Yields force r course (r₁.withContent turn.2.1 found) r' := by
  rw [Yields, Yields, List.map_cons, changeAt_eq h, Record.modified_cons, List.forall_mem_cons,
    and_assoc]
  exact and_iff_right ⟨found, h⟩

theorem not_yields_cons {e : Error} (h : contentAfter force turn.1 r turn.2 = .error e) :
    ¬ Yields force r (turn :: course) r₁ r' := by
  rintro ⟨hsucceeds, -⟩
  obtain ⟨found, hfound⟩ := hsucceeds turn List.mem_cons_self
  cases h.symm.trans hfound

theorem yields_congr {r₀ : Record}
    (h : ∀ turn ∈ course,
      contentAfter force turn.1 r turn.2 = contentAfter force turn.1 r₀ turn.2) :
    Yields force r course r₁ r' ↔ Yields force r₀ course r₁ r' := by
  have hchanges : course.map (changeAt force r) = course.map (changeAt force r₀) := by
    refine List.map_congr_left fun turn hturn => ?_
    rw [changeAt, changeAt, h turn hturn]
  rw [Yields, Yields, hchanges]
  refine and_congr_left fun _ => forall₂_congr fun turn hturn => ?_
  rw [h turn hturn]

/-- Casts of other columns leave it as it is whether a record is new. -/
theorem Yields.isNew_eq (h : Yields force r course r₁ r')
    (hcourse : ∀ turn ∈ course, turn.2.1 ≠ "_id") : r'.isNew = r₁.isNew := by
  induction course generalizing r₁ with
  | nil => rw [yields_nil_iff.1 h]
  | cons turn rest ih =>
    obtain ⟨hturn, hrest⟩ := List.forall_mem_cons.1 hcourse
    obtain ⟨found, hfound⟩ := h.1 turn List.mem_cons_self
    have hlater := (yields_cons_iff hfound).1 h
    rw [ih hlater hrest, Record.isNew_withContent hturn]

end Yields

/-! ## Independent casts -/

/-- Whether casts are of different columns that are independent of each other in a document. -/
def ApartIn (casts : List (String × String)) (d : Document) : Prop :=
  casts.Pairwise fun x y =>
    x.1 ≠ y.1 ∧ Path.Independent (.dict d) (Path.ofText x.1) (Path.ofText y.1)

theorem ApartIn.withContent (h : ApartIn casts r.data)
    (hcolumn : ∀ y ∈ casts,
      Path.Independent (.dict r.data) (Path.ofText column) (Path.ofText y.1))
    (found : Option Value) : ApartIn casts (r.withContent column found).data := by
  refine h.imp_of_mem fun {x y} _ hy hxy => ⟨hxy.1, ?_⟩
  rw [Record.dict_data_withContent]
  exact hxy.2.modify (hcolumn y hy) _

theorem ApartIn.perm {casts' : List (String × String)} {d : Document} (h : ApartIn casts d)
    (hperm : casts.Perm casts') : ApartIn casts' d :=
  List.Pairwise.perm h hperm fun hxy => ⟨Ne.symm hxy.1, hxy.2.symm⟩

theorem ApartIn.changes {course : List (Bool × String × String)}
    (h : ApartIn (course.map (·.2)) r.data) :
    Path.Apart (course.map (changeAt force r)) (.dict r.data) := by
  rw [ApartIn, List.pairwise_map] at h
  exact List.pairwise_map.2 (h.imp And.right)

/-- Casts of independent columns go as it is told of them from the record before. -/
theorem run_casts (ctx : Context σ)
    (hbare : ∀ x ∈ casts, ∀ v, r.data.column? x.1 = .ok (some v) → v.Bare)
    (hapart : ApartIn casts r.data) :
    (casts.forM fun x => castColumn ctx force x.1 (.named x.2)).run (r, s) = (.ok (), r', s') ↔
      s' = s ∧ Yields force r (turns r.isNew r'.isNew casts) r r' := by
  induction casts generalizing r s with
  | nil =>
    rw [turns, yields_nil_iff]
    constructor
    · intro h
      cases h
      exact ⟨rfl, rfl⟩
    · rintro ⟨rfl, rfl⟩
      rfl
  | cons x rest ih =>
    obtain ⟨hbarex, hbarerest⟩ := List.forall_mem_cons.1 hbare
    obtain ⟨hx, hrest⟩ := List.pairwise_cons.1 hapart
    have hturn := run_castColumn_turn ctx force hbarex s
    rw [List.forM_eq_forM, List.forM_cons, turns]
    cases hcontent : contentAfter force r.isNew r x with
    | error e =>
      rw [hcontent] at hturn
      rw [Action.run_bind_error hturn]
      exact iff_of_false nofun fun h => not_yields_cons hcontent h.2
    | ok found =>
      rw [hcontent] at hturn
      -- What the other casts read was not touched by this one.
      have hread : ∀ y ∈ rest, (r.withContent x.1 found).data.column? y.1 = r.data.column? y.1 :=
        fun y hy => Record.column?_withContent_of_independent (hx y hy).2
      have hbare' : ∀ y ∈ rest, ∀ v,
          (r.withContent x.1 found).data.column? y.1 = .ok (some v) → v.Bare := by
        intro y hy v hv
        rw [hread y hy] at hv
        exact hbarerest y hy v hv
      have hapart' : ApartIn rest (r.withContent x.1 found).data :=
        ApartIn.withContent hrest (fun y hy => (hx y hy).2) found
      have hsame (new : Bool) : ∀ turn ∈ turns new r'.isNew rest,
          contentAfter force turn.1 (r.withContent x.1 found) turn.2 =
            contentAfter force turn.1 r turn.2 :=
        fun turn hturn => contentAfter_congr rfl (hread _ (mem_of_mem_turns hturn))
      -- At the next turn the record is new if it is in the end or if it was at this one.
      have hnext (new : Bool)
          (h : Yields force r (turns new r'.isNew rest) (r.withContent x.1 found) r') :
          (r.withContent x.1 found).isNew = if x.1 = "_id" then r'.isNew else r.isNew := by
        by_cases hid : x.1 = "_id"
        · rw [if_pos hid, h.isNew_eq]
          intro turn hturn
          rw [← hid]
          exact Ne.symm (hx _ (mem_of_mem_turns hturn)).1
        · rw [if_neg hid, Record.isNew_withContent hid]
      rw [Action.run_bind_ok hturn, ← List.forM_eq_forM, ih hbare' hapart',
        yields_cons_iff hcontent, yields_congr (hsame _)]
      refine and_congr_right fun _ => ⟨fun h => ?_, fun h => ?_⟩
      · rwa [hnext _ h] at h
      · rwa [hnext _ h]

namespace Yields

variable {course course' : List (Bool × String × String)}

theorem dict_data (h : Yields force r course r₁ r') :
    Value.dict r'.data = Path.modifyEach (course.map (changeAt force r)) (.dict r₁.data) := by
  rw [h.2]
  refine Path.dict_entries_modifyEach (fun a ha => ?_) _
  obtain ⟨turn, -, rfl⟩ := List.mem_map.1 ha
  exact Path.ofText_ne_nil _

/-- Each column holds what its own turn leaves in it. -/
theorem column?_eq (h : Yields force r course r r') (hapart : ApartIn (course.map (·.2)) r.data)
    {turn : Bool × String × String} (hturn : turn ∈ course) :
    r'.data.column? turn.2.1 = contentAfter force turn.1 r turn.2 := by
  obtain ⟨found, hfound⟩ := h.1 turn hturn
  have hread := Path.get?_modifyEach_of_mem hapart.changes
    (List.mem_map_of_mem (f := changeAt force r) hturn)
  rw [← h.dict_data, changeAt_eq hfound] at hread
  rw [hfound]
  exact hread.trans (content_of_contentAfter hfound)

theorem get?_of_independent (h : Yields force r course r r')
    (hapart : ApartIn (course.map (·.2)) r.data) {q : Path}
    (hq : ∀ turn ∈ course, Path.Independent (.dict r.data) (Path.ofText turn.2.1) q) :
    Path.get? (.dict r'.data) q = Path.get? (.dict r.data) q := by
  rw [h.dict_data]
  refine Path.get?_modifyEach_of_independent hapart.changes fun a ha => ?_
  obtain ⟨turn, hturn, rfl⟩ := List.mem_map.1 ha
  exact hq turn hturn

theorem perm (h : Yields force r course r r') (hapart : ApartIn (course.map (·.2)) r.data)
    (hperm : course.Perm course') : Yields force r course' r r' := by
  obtain ⟨hsucceeds, hr'⟩ := h
  refine ⟨fun turn hturn => hsucceeds turn (hperm.mem_iff.2 hturn), ?_⟩
  rw [hr', Record.modified, Record.modified,
    Path.modifyEach_perm (hperm.map _) hapart.changes]

end Yields

/-- Turns come to the same at which it makes no difference to call the record new or not. -/
theorem yields_relabel {course : List (Bool × String × String)}
    (h : ∀ turn ∈ course,
      contentAfter force turn.1 r turn.2 = contentAfter force new r turn.2) :
    Yields force r course r₁ r' ↔
      Yields force r (course.map fun turn => (new, turn.2)) r₁ r' := by
  induction course generalizing r₁ with
  | nil => rfl
  | cons turn rest ih =>
    obtain ⟨hturn, hrest⟩ := List.forall_mem_cons.1 h
    rw [List.map_cons]
    cases hcontent : contentAfter force new r turn.2 with
    | error e =>
      exact iff_of_false (not_yields_cons (hturn.trans hcontent)) (not_yields_cons hcontent)
    | ok found => rw [yields_cons_iff (hturn.trans hcontent), yields_cons_iff hcontent, ih hrest]

theorem yields_turns_iff (hcasts : casts.Pairwise fun x y => x.1 ≠ y.1)
    (h : ∀ x ∈ casts, x.1 ≠ "_id" → contentAfter force later r x = contentAfter force new r x) :
    Yields force r (turns new later casts) r₁ r' ↔
      Yields force r (casts.map fun x => (new, x)) r₁ r' := by
  have hcourse : (turns new later casts).map (fun turn => (new, turn.2)) =
      casts.map fun x => (new, x) := by
    calc (turns new later casts).map (fun turn => (new, turn.2))
      _ = ((turns new later casts).map (·.2)).map fun x => (new, x) := by rw [List.map_map]; rfl
      _ = casts.map fun x => (new, x) := by rw [map_snd_turns]
  rw [← hcourse]
  refine yields_relabel fun turn hturn => ?_
  rcases turns_cases hcasts hturn with hlabel | ⟨hlabel, hid⟩
  · rw [hlabel]
  · rw [hlabel, h _ (mem_of_mem_turns hturn) hid]

/-! ## Casts of a model -/

/-- Casts to named kinds, as a model declares them. -/
def declared (casts : List (String × String)) : List (String × CastRule σ) :=
  casts.map fun x => (x.1, .named x.2)

/-- The context in which a model declares other casts. -/
def declaring (ctx : Context σ) (model : String) (casts : List (String × String)) : Context σ :=
  { ctx with
    model := fun name =>
      if name = model then { ctx.model name with casts := declared casts } else ctx.model name }

theorem casts_declaring (ctx : Context σ) (model : String) (casts : List (String × String)) :
    ((declaring ctx model casts).model model).casts = declared casts := by
  simp [declaring]

/-- Whether it makes no difference to the cast of a column that its record is new: either the column
differs from what is stored, or there is nothing in it, or the cast leaves it alone. -/
def Indifferent (r : Record) (x : String × String) : Prop :=
  contentAfter false true r x = contentAfter false false r x

theorem indifferent_iff {isChanged : Bool} {v : Value} (hchanged : r.differs x.1 = .ok isChanged)
    (hv : r.data.column? x.1 = .ok (some v)) :
    Indifferent r x ↔ isChanged = true ∨ contentCast x.1 x.2 v = .ok v := by
  have hnew : due false true r x.1 = .ok true := rfl
  have hstored : due false false r x.1 = .ok isChanged := hchanged
  have hcast : castAt r x = some <$> contentCast x.1 x.2 v := by
    rw [castAt, hv]
    rfl
  rw [Indifferent, contentAfter_of_due hnew, contentAfter_of_due hstored, hcast, hv]
  cases isChanged with
  | true => simp
  | false => simp [map_eq_ok]

theorem contentAfter_eq_iff :
    contentAfter force later r x = contentAfter force new r x ↔
      force = true ∨ later = new ∨ Indifferent r x := by
  cases force with
  | true => exact iff_of_true rfl (.inl rfl)
  | false => cases later <;> cases new <;> simp [Indifferent, eq_comm]

theorem run_castData (hcasts : (ctx.model r.model).casts = declared casts)
    (hapart : ApartIn casts r.data)
    (hbare : ∀ x ∈ casts, ∀ v, r.data.column? x.1 = .ok (some v) → v.Bare) :
    (castData ctx force).run (r, s) = (.ok (), r', s') ↔
      s' = s ∧ Yields force r (turns r.isNew r'.isNew casts) r r' := by
  rw [← run_casts ctx hbare hapart, castData, Action.run_bind_ok (Action.run_get (r, s))]
  simp only [hcasts, declared, List.forM_eq_forM, List.forM_map]

theorem Yields.column?_of_append (h : Yields force r (turns new later casts) r r')
    (hapart : ApartIn casts r.data) (front : List (String × String)) (x : String × String)
    (back : List (String × String)) (hcasts : casts = front ++ x :: back) :
    r'.data.column? x.1 =
      contentAfter force (if "_id" ∈ front.map (·.1) then later else new) r x := by
  have hturn := mem_turns_append new later front x back
  rw [← hcasts] at hturn
  refine h.column?_eq ?_ hturn
  rwa [map_snd_turns]

/-- If the record is new afterwards as it was before, or this makes no difference, then the casts go
as those of the record that was handed in, in any order. -/
theorem orderless_of_same (hapart : ApartIn casts r.data)
    (hbare : ∀ x ∈ casts, ∀ v, r.data.column? x.1 = .ok (some v) → v.Bare)
    (hyields : Yields force r (turns r.isNew r'.isNew casts) r r')
    (hsame : ∀ x ∈ casts, x.1 ≠ "_id" →
      contentAfter force r'.isNew r x = contentAfter force r.isNew r x) :
    (∀ x ∈ casts, r'.data.column? x.1 = contentAfter force r.isNew r x) ∧
    ∀ casts', casts.Perm casts' →
      (castData (declaring ctx r.model casts') force).run (r, s) = (.ok (), r', s) := by
  have huniform := (yields_turns_iff (hapart.imp And.left) hsame).1 hyields
  have hcolumns : ApartIn ((casts.map fun x => (r.isNew, x)).map (·.2)) r.data := by
    rw [List.map_map]
    exact (List.map_id casts).symm ▸ hapart
  refine ⟨fun x hx => huniform.column?_eq hcolumns (List.mem_map_of_mem hx), ?_⟩
  intro casts' hperm
  have hapart' := hapart.perm hperm
  have hbare' : ∀ x ∈ casts', ∀ v, r.data.column? x.1 = .ok (some v) → v.Bare :=
    fun x hx => hbare x (hperm.mem_iff.2 hx)
  have hsame' : ∀ x ∈ casts', x.1 ≠ "_id" →
      contentAfter force r'.isNew r x = contentAfter force r.isNew r x :=
    fun x hx => hsame x (hperm.mem_iff.2 hx)
  have huniform' := huniform.perm hcolumns (hperm.map fun x => (r.isNew, x))
  refine (run_castData (casts_declaring ctx r.model casts') hapart' hbare').2 ⟨rfl, ?_⟩
  exact (yields_turns_iff (hapart'.imp And.left) hsame').2 huniform'

/-- A column that was cast as one of the record that was handed in, and could as well have been cast
right behind the identifier, holds what either of the two turns makes. -/
theorem content_of_orderless (hapart : ApartIn casts r.data)
    (hbare : ∀ x ∈ casts, ∀ v, r.data.column? x.1 = .ok (some v) → v.Bare)
    (horder : ∀ casts', casts.Perm casts' →
      (castData (declaring ctx r.model casts') force).run (r, s) = (.ok (), r', s))
    {y : String × String} (hy : y ∈ casts) (hyid : y.1 = "_id") (hx : x ∈ casts)
    (hid : x.1 ≠ "_id") : r'.data.column? x.1 = contentAfter force r'.isNew r x := by
  have hxy : x ≠ y := by
    rintro rfl
    exact hid hyid
  have hmem : x ∈ casts.erase y := (List.mem_erase_of_ne hxy).2 hx
  have hperm : casts.Perm (y :: x :: (casts.erase y).erase x) :=
    (List.perm_cons_erase hy).trans ((List.perm_cons_erase hmem).cons y)
  have hapart' := hapart.perm hperm
  have hbare' : ∀ z ∈ y :: x :: (casts.erase y).erase x, ∀ v,
      r.data.column? z.1 = .ok (some v) → v.Bare :=
    fun z hz => hbare z (hperm.mem_iff.2 hz)
  obtain ⟨-, hyields⟩ := (run_castData (casts_declaring ctx r.model _) hapart' hbare').1
    (horder _ hperm)
  have hcontent := hyields.column?_of_append hapart' [y] x _ rfl
  rwa [if_pos (by simp [hyid])] at hcontent

/-- The casts of columns that are independent of each other change nothing else, and each of them
leaves in its column what its own turn makes of what was there. That is told from the record that
was handed in and does not depend on the order exactly if the cast is forced, or the record is new
afterwards as it was before, or this makes no difference to any column but the identifier. -/
theorem castData_orderless_iff (hcasts : (ctx.model r.model).casts = declared casts)
    (hapart : ApartIn casts r.data)
    (hbare : ∀ x ∈ casts, ∀ v, r.data.column? x.1 = .ok (some v) → v.Bare)
    (hrun : (castData ctx force).run (r, s) = (.ok (), r', s')) :
    (s' = s ∧ r' = { r with data := r'.data }) ∧
    (∀ q, (∀ x ∈ casts, Path.Independent (.dict r.data) (Path.ofText x.1) q) →
      Path.get? (.dict r'.data) q = Path.get? (.dict r.data) q) ∧
    (∀ front x back, casts = front ++ x :: back →
      r'.data.column? x.1 =
        contentAfter force (if "_id" ∈ front.map (·.1) then r'.isNew else r.isNew) r x) ∧
    (((∀ x ∈ casts, r'.data.column? x.1 = contentAfter force r.isNew r x) ∧
      ∀ casts', casts.Perm casts' →
        (castData (declaring ctx r.model casts') force).run (r, s) = (.ok (), r', s)) ↔
      force = true ∨ r'.isNew = r.isNew ∨ ∀ x ∈ casts, x.1 ≠ "_id" → Indifferent r x) := by
  obtain ⟨rfl, hyields⟩ := (run_castData hcasts hapart hbare).1 hrun
  have hcolumns : ApartIn ((turns r.isNew r'.isNew casts).map (·.2)) r.data := by
    rwa [map_snd_turns]
  refine ⟨⟨rfl, ?_⟩, fun q hq => ?_, hyields.column?_of_append hapart, ?_⟩
  · rw [hyields.2]
    rfl
  · exact hyields.get?_of_independent hcolumns fun turn hturn => hq _ (mem_of_mem_turns hturn)
  constructor
  · rintro ⟨hpointwise, horder⟩
    by_cases hforce : force = true
    · exact .inl hforce
    by_cases hnew : r'.isNew = r.isNew
    · exact .inr (.inl hnew)
    refine .inr (.inr fun x hx hid => ?_)
    obtain ⟨y, hy, hyid⟩ : ∃ y ∈ casts, y.1 = "_id" := by
      by_contra hnone
      refine hnew (hyields.isNew_eq fun turn hturn hid => ?_)
      exact hnone ⟨turn.2, mem_of_mem_turns hturn, hid⟩
    have hcontent := content_of_orderless hapart hbare horder hy hyid hx hid
    rw [hpointwise x hx, eq_comm, contentAfter_eq_iff] at hcontent
    exact (hcontent.resolve_left hforce).resolve_left hnew
  · intro h
    refine orderless_of_same hapart hbare hyields fun x hx hid => contentAfter_eq_iff.2 ?_
    rcases h with hforce | hnew | hindifferent
    · exact .inl hforce
    · exact .inr (.inl hnew)
    · exact .inr (.inr (hindifferent x hx hid))

/-! ### Orders -/

/-- The counts of two items, the second of them under another spelling of its position. -/
def countCasts : List (String × String) :=
  [("items.0.count", "int"), ("items.01.count", "int")]

def counting : Context Unit :=
  declaring .quiet "Order" countCasts

/-- A stored order that has got two items. -/
def filledOrder : Record where
  model := "Order"
  data := [(.text "_id", .int 7), (.text "items", .list [
    .dict [(.text "count", .text "2")],
    .dict [(.text "count", .list [.text "3", .int 4])]])]
  stored := [(.text "_id", .int 7)]
  restored := false

theorem castData_orderless_iff_counts :
    ∃ r', (castData counting false).run (filledOrder, ()) = (.ok (), r', ()) ∧
      r'.data.column? "items.0.count" = .ok (some (.int 2)) ∧
      r'.data.column? "items.1.count" = .ok (some (.list [.int 3, .int 4])) ∧
      (castData (declaring counting "Order" countCasts.reverse) false).run (filledOrder, ()) =
        (.ok (), r', ()) := by
  have hitems : Path.Independent (.dict filledOrder.data)
      (Path.ofText "items.0.count") (Path.ofText "items.01.count") := by
    refine Path.Independent.of_branch (w := ["items"]) (by decide) fun items _ i hi => ?_
    cases hi
    decide
  have hapart : ApartIn countCasts filledOrder.data := by
    refine List.pairwise_cons.2 ⟨fun y hy => ?_, List.pairwise_singleton _ _⟩
    obtain rfl := List.mem_singleton.1 hy
    exact ⟨by decide, hitems⟩
  have hbare : ∀ x ∈ countCasts, ∀ v, filledOrder.data.column? x.1 = .ok (some v) → v.Bare := by
    intro x hx v hv
    simp only [countCasts, List.mem_cons, List.not_mem_nil, or_false] at hx
    rcases hx with rfl | rfl
    · cases hv
      rfl
    · cases hv
      simp [Value.Bare, Record.ofValue?]
  obtain ⟨r', hrun⟩ : ∃ r', (castData counting false).run (filledOrder, ()) = (.ok (), r', ()) :=
    ⟨_, rfl⟩
  obtain ⟨-, -, -, horderless⟩ :=
    castData_orderless_iff (casts_declaring .quiet "Order" countCasts) hapart hbare hrun
  obtain ⟨hpointwise, horder⟩ := horderless.2 (.inr (.inl (by cases hrun; rfl)))
  have hfirst := hpointwise ("items.0.count", "int") List.mem_cons_self
  refine ⟨r', hrun, hfirst, ?_, horder _ (List.reverse_perm _).symm⟩
  cases hrun
  rfl

/-- A new order with a number for its identifier and a text for its total. -/
def numberedOrder : Record :=
  .ofData "Order" [(.text "_id", .int 0), (.text "id", .int 1), (.text "total", .text "5")]

/-- Once the identifier is the text of zero the order is no longer new, and its total, which has not
changed, is not cast. -/
theorem not_orderless_identifier :
    let casts := [("_id", "string"), ("total", "int")]
    ApartIn casts numberedOrder.data ∧
    (∃ r', (castData (declaring .quiet "Order" casts) false).run (numberedOrder, ()) =
        (.ok (), r', ()) ∧ r'.data.column? "total" = .ok (some (.text "5"))) ∧
    (∃ r', (castData (declaring .quiet "Order" casts.reverse) false).run (numberedOrder, ()) =
        (.ok (), r', ()) ∧ r'.data.column? "total" = .ok (some (.int 5))) ∧
    contentAfter false numberedOrder.isNew numberedOrder ("total", "int") =
      .ok (some (.int 5)) ∧
    ¬ Indifferent numberedOrder ("total", "int") := by
  refine ⟨?_, ⟨_, rfl, rfl⟩, ⟨_, rfl, rfl⟩, rfl, ?_⟩
  · refine List.pairwise_cons.2 ⟨fun y hy => ?_, List.pairwise_singleton _ _⟩
    obtain rfl := List.mem_singleton.1 hy
    exact ⟨by decide, .parted (by decide : "_id" ≠ "total")⟩
  · have hsame : numberedOrder.differs "total" = .ok false := rfl
    have htotal : numberedOrder.data.column? "total" = .ok (some (.text "5")) := rfl
    intro h
    rcases (indifferent_iff (x := ("total", "int")) hsame htotal).1 h with hchanged | hcast
    · cases hchanged
    · cases hcast

end Casting

end DocumentMapper
