import DocumentMapper.Pipeline.Refinement
import DocumentMapper.Proofs.Document.Fields
import DocumentMapper.Proofs.Document.Moments
import DocumentMapper.Proofs.Upholding

/-!
# Moments in filters and stages

A clause puts the moments of its operand on a clock of UTC. Alternatives and the greatest distance
from a place are taken over as they are, as is everything that is no filter. So the stages of a
query are on UTC if what was taken over is, and a query of filters alone exactly then.
-/

namespace DocumentMapper

open Calendar Outcome

variable {I : Set Int} {v w : Value} {d : Document}

/-! ## Filters -/

namespace Filter

variable {operator : Operator} {column operand : Value}

/-- An expression holds the moments of its operand on a clock of UTC, or none of them. -/
def Renders (I : Set Int) (operand e : Value) : Prop :=
  e.OnUtc I ∧ e.instants.Sublist operand.instants

theorem renders_of_moments {e : Value} (h : e.moments .parts = []) : Renders I operand e := by
  refine ⟨Value.all_of_moments h, ?_⟩
  simp [Value.instants, h]

theorem Renders.negated {e : Value} (h : Renders I operand e) :
    Renders I operand (negated e) := by
  refine ⟨Value.all_single.2 h.1, ?_⟩
  simpa [Filter.negated, Value.single, Value.instants] using h.2

theorem renders_of_range (hv : v.OnUtc I) (h : range operator v = .ok w) : Renders I v w := by
  unfold range at h
  split at h
  · cases h
    rw [Value.OnUtc, Value.all_list] at hv
    refine ⟨Value.all_ofEntries.2 ?_, ?_⟩
    · simpa using hv
    · simp [Value.ofEntries, Value.instants]
  · cases h
    rw [Value.OnUtc, Value.all_tuple] at hv
    refine ⟨Value.all_ofEntries.2 ?_, ?_⟩
    · simpa using hv
    · simp [Value.ofEntries, Value.instants]
  · cases h

theorem renders_of_plainExpression (hv : v.Within I) (h : plainExpression operator v = .ok w) :
    Renders I v w := by
  obtain ⟨u, hu, h⟩ := bind_eq_ok.1 h
  have hutc := Value.onUtc_of_normalizeDates hv hu
  have hinstants := Value.instants_of_normalizeDates hu
  unfold Renders
  rw [← hinstants]
  split at h
  · exact renders_of_range hutc h
  · obtain ⟨e, he, h⟩ := bind_eq_ok.1 h
    cases h
    exact (renders_of_range hutc he).negated
  · cases h
    refine ⟨Value.all_single.2 hutc, ?_⟩
    simp [Value.single, Value.instants]

theorem sublist_instants {vs : List Value} (hv : v ∈ vs) :
    v.instants.Sublist (Value.list vs).instants := by
  rw [Value.instants_list]
  exact List.sublist_flatten_of_mem (List.mem_map_of_mem hv)

theorem moments_of_reference (h : Column.reference v = .ok w) : w.moments .parts = [] := by
  unfold Column.reference at h
  split at h <;> cases h
  rfl

theorem renders_of_expression (hv : v.Within I) (h : expression operator v = .ok w) :
    Renders I v w := by
  unfold expression at h
  split at h
  iterate 6
    · cases h
      exact renders_of_moments rfl
  · split at h
    · obtain ⟨r, hr, h⟩ := bind_eq_ok.1 h
      cases h
      exact renders_of_moments (by simp [Value.single, moments_of_reference hr])
    · exact renders_of_plainExpression hv h
  · split at h
    · obtain ⟨r, hr, h⟩ := bind_eq_ok.1 h
      cases h
      exact renders_of_moments (by simp [negated, Value.single, moments_of_reference hr])
    · exact renders_of_plainExpression hv h
  · exact renders_of_plainExpression hv h

theorem renders_of_onColumn (hv : v.Within I) (h : onColumn column operator v = .ok w) :
    ∃ d, w = .dict d ∧ Renders I v w := by
  obtain ⟨e, he, h⟩ := bind_eq_ok.1 h
  obtain ⟨key, -, h⟩ := bind_eq_ok.1 h
  cases h
  obtain ⟨hutc, hinstants⟩ := renders_of_expression hv he
  refine ⟨_, rfl, Value.all_dict.2 (Document.all_cons.2 ⟨hutc, Document.all_nil⟩), ?_⟩
  simpa [Value.instants] using hinstants

/-- A clause becomes a dictionary with the moments of its operand on a clock of UTC. -/
theorem renders_of_ofClause {parts : List Value} (hparts : ∀ v ∈ parts, v.Within I)
    (h : ofClause parts = .ok w) : ∃ d, w = .dict d ∧ Renders I (.list parts) w := by
  unfold ofClause at h
  split at h
  · rename_i entries
    have hutc := Value.onUtc_of_normalizeDates (hparts _ List.mem_cons_self) h
    have hinstants := Value.instants_of_normalizeDates h
    obtain ⟨d, hd, h⟩ := bind_eq_ok.1 h
    cases h
    refine ⟨d, rfl, hutc, ?_⟩
    rw [hinstants]
    simp [Value.instants]
  · cases h
  · rename_i column operand
    obtain ⟨d, rfl, hutc, hinstants⟩ := renders_of_onColumn (hparts operand (by simp)) h
    exact ⟨d, rfl, hutc, hinstants.trans (sublist_instants (by simp))⟩
  · rename_i column token operand
    obtain ⟨operator, -, h⟩ := bind_eq_ok.1 h
    obtain ⟨d, rfl, hutc, hinstants⟩ := renders_of_onColumn (hparts operand (by simp)) h
    exact ⟨d, rfl, hutc, hinstants.trans (sublist_instants (by simp))⟩
  · cases h

end Filter

/-! ## Stages -/

/-- A stage is sent as it is, or as a filter of its own; either way on a clock of UTC. -/
structure Stage.OnUtc (I : Set Int) (s : Stage) : Prop where
  payload : s.payload.OnUtc I
  filter : s.name = "match" → ∀ d, s.payload.toDocument = .ok d → d.All .parts (Moment.ShowsUtc I)

namespace Stage

variable {s : Stage}

theorem onUtc_of_ne {name : String} (hname : name ≠ "match") (hv : v.OnUtc I) :
    Stage.OnUtc I ⟨name, v⟩ :=
  ⟨hv, fun h => absurd h hname⟩

theorem onUtc_filter_iff : (filter (.dict d)).OnUtc I ↔ (Value.dict d).OnUtc I := by
  refine ⟨fun h => h.payload, fun h => ⟨h, fun _ d' hd' => ?_⟩⟩
  cases hd'
  exact Value.all_dict.1 h

theorem onUtc_wire (h : s.OnUtc I) : s.wire.OnUtc I :=
  Value.all_single.2 h.payload

/-- A filter is sent on UTC exactly if it is on UTC. -/
theorem onUtc_wire_filter_iff : (filter (.dict d)).wire.OnUtc I ↔ (filter (.dict d)).OnUtc I := by
  rw [onUtc_filter_iff]
  exact Value.all_single

theorem instants_wire (s : Stage) : s.wire.instants = s.payload.instants := by
  simp [wire, Value.single, Value.instants]

/-- What an alternative says about its column, or all that it says. -/
def operand : Value → Value
  | .list [_, operand] => operand
  | .tuple [_, operand] => operand
  | v => v

theorem moments_of_alternative (h : alternative v = .ok w) :
    w.moments .parts = (operand v).moments .parts := by
  unfold alternative at h
  split at h
  · obtain ⟨key, -, h⟩ := bind_eq_ok.1 h
    cases h
    simp [operand]
  · obtain ⟨key, -, h⟩ := bind_eq_ok.1 h
    cases h
    simp [operand]
  · cases h
  · cases h
  · cases h
    rfl
  · cases h

theorem moments_of_mapM_alternative {vs ws : List Value} (h : vs.mapM alternative = .ok ws) :
    ws.flatMap (Value.moments .parts) = (vs.map operand).flatMap (Value.moments .parts) := by
  induction vs generalizing ws with
  | nil =>
    cases h
    rfl
  | cons v rest ih =>
    rw [List.mapM_cons] at h
    obtain ⟨w, hw, h⟩ := bind_eq_ok.1 h
    obtain ⟨ws', hws, h⟩ := bind_eq_ok.1 h
    cases h
    rw [List.map_cons, List.flatMap_cons, List.flatMap_cons, ih hws, moments_of_alternative hw]

/-- What alternatives say, each about its column or as a whole. -/
def operands : Value → List Value
  | .dict entries => entries.map (·.2)
  | .list items => items.map operand
  | _ => []

end Stage

theorem Refinement.alternatives_cases (operations : List Value) :
    (∃ es, alternatives operations = .dict es) ∨
      ∃ items, alternatives operations = .list items := by
  unfold alternatives
  split
  · exact .inr ⟨_, rfl⟩
  · exact .inl ⟨_, rfl⟩
  · exact .inr ⟨_, rfl⟩

/-- The alternatives of a call are taken over as they are. -/
theorem Stage.exists_of_anyOf {operations : List Value} {s : Stage}
    (h : anyOf (Refinement.alternatives operations) = .ok s) :
    ∃ d, s = filter (.dict d) ∧ (Value.dict d).moments .parts =
      (operands (Refinement.alternatives operations)).flatMap (Value.moments .parts) := by
  unfold anyOf at h
  obtain ⟨es, he⟩ | ⟨items, he⟩ := Refinement.alternatives_cases operations
  · rw [he] at h ⊢
    cases h
    refine ⟨_, rfl, ?_⟩
    simp [operands, Value.momentsOfItems_eq, List.flatMap_map]
  · rw [he] at h ⊢
    obtain ⟨vs, hvs, h⟩ := bind_eq_ok.1 h
    cases hvs
    obtain ⟨ws, hws, h⟩ := bind_eq_ok.1 h
    cases h
    refine ⟨_, rfl, ?_⟩
    simp [operands, Value.momentsOfItems_eq, moments_of_mapM_alternative hws]

namespace Stage

variable {s : Stage}

theorem onUtc_of_marked {columns : Value} {mark : Int} (h : marked columns mark = .ok s) :
    s.OnUtc I := by
  obtain ⟨parts, -, h⟩ := bind_eq_ok.1 h
  obtain ⟨keys, -, h⟩ := bind_eq_ok.1 h
  cases h
  refine onUtc_of_ne (by decide) (Value.all_dict.2 (Document.All.ofEntries ?_))
  exact List.forall_mem_map.2 fun _ _ => Value.all_int _

theorem all_of_renamed {es : Document} (hes : es.All .parts (Moment.ShowsUtc I))
    (h : renamed es = .ok d) : d.All .parts (Moment.ShowsUtc I) := by
  induction es generalizing d with
  | nil =>
    cases h
    exact Document.all_nil
  | cons e rest ih =>
    obtain ⟨k, v⟩ := e
    obtain ⟨hv, hrest⟩ := Document.all_cons.1 hes
    unfold renamed at h
    split_ifs at h
    · obtain ⟨r, hr, h⟩ := bind_eq_ok.1 h
      obtain ⟨d', hd', h⟩ := bind_eq_ok.1 h
      cases h
      exact Document.all_cons.2
        ⟨Value.all_of_moments (Filter.moments_of_reference hr), ih hrest hd'⟩
    · obtain ⟨w, hw, h⟩ := bind_eq_ok.1 h
      cases hw
      obtain ⟨d', hd', h⟩ := bind_eq_ok.1 h
      cases h
      exact Document.all_cons.2 ⟨hv, ih hrest hd'⟩

theorem onUtc_of_select {columns : Value} (hcolumns : ∀ es, columns = .dict es → columns.OnUtc I)
    (h : select columns = .ok s) : s.OnUtc I := by
  unfold select at h
  split at h
  · obtain ⟨d, hd, h⟩ := bind_eq_ok.1 h
    cases h
    exact onUtc_of_ne (by decide)
      (Value.all_dict.2 (all_of_renamed (Value.all_dict.1 (hcolumns _ rfl)) hd))
  · exact onUtc_of_marked h

theorem moments_of_direction (h : direction v = .ok w) : w.moments .parts = [] := by
  unfold direction at h
  split at h
  · cases h
    rfl
  · cases h
    rfl
  · obtain ⟨key, -, h⟩ := bind_eq_ok.1 h
    cases h

theorem onUtc_of_sort {column order : Value} (h : sort column order = .ok s) : s.OnUtc I := by
  obtain ⟨mark, hmark, h⟩ := bind_eq_ok.1 h
  obtain ⟨key, -, h⟩ := bind_eq_ok.1 h
  cases h
  exact onUtc_of_ne (by decide) (Value.all_of_moments (by simp [moments_of_direction hmark]))

theorem all_of_directions {es : Document} (h : directions es = .ok d) :
    d.All .parts (Moment.ShowsUtc I) := by
  induction es generalizing d with
  | nil =>
    cases h
    exact Document.all_nil
  | cons e rest ih =>
    obtain ⟨k, v⟩ := e
    obtain ⟨mark, hmark, h⟩ := bind_eq_ok.1 h
    obtain ⟨d', hd', h⟩ := bind_eq_ok.1 h
    cases h
    exact Document.all_cons.2 ⟨Value.all_of_moments (moments_of_direction hmark), ih hd'⟩

theorem onUtc_of_sortBy {columns : Value} (h : sortBy columns = .ok s) : s.OnUtc I := by
  obtain ⟨es, -, h⟩ := bind_eq_ok.1 h
  obtain ⟨d, hd, h⟩ := bind_eq_ok.1 h
  cases h
  exact onUtc_of_ne (by decide) (Value.all_dict.2 (all_of_directions hd))

theorem moments_of_references {names : List Value} (h : Column.references names = .ok d) :
    d.All .parts (Moment.ShowsUtc I) := by
  induction names generalizing d with
  | nil =>
    cases h
    exact Document.all_nil
  | cons name rest ih =>
    obtain ⟨r, hr, h⟩ := bind_eq_ok.1 h
    obtain ⟨d', hd', h⟩ := bind_eq_ok.1 h
    cases h
    have hname : r.OnUtc I := Value.all_of_moments (Filter.moments_of_reference hr)
    exact (Document.all_nil.put hname name).append (ih hd')

theorem onUtc_of_groupKey {key : Value} (hkey : key.OnUtc I) (h : groupKey key = .ok w) :
    w.OnUtc I := by
  unfold groupKey at h
  split at h
  · exact Value.all_of_moments (Filter.moments_of_reference h)
  · obtain ⟨d, hd, h⟩ := bind_eq_ok.1 h
    cases h
    exact Value.all_dict.2 (moments_of_references hd).ofEntries
  · obtain ⟨d, hd, h⟩ := bind_eq_ok.1 h
    cases h
    exact Value.all_dict.2 (moments_of_references hd).ofEntries
  · cases h
    exact hkey

theorem onUtc_of_group {key accumulators : Value} (hkey : key.OnUtc I)
    (haccumulators : accumulators.OnUtc I) (h : group key accumulators = .ok s) : s.OnUtc I := by
  obtain ⟨key', hkey', h⟩ := bind_eq_ok.1 h
  have hstart : Document.All .parts (Moment.ShowsUtc I) [(.text "_id", key')] :=
    Document.all_cons.2 ⟨onUtc_of_groupKey hkey hkey', Document.all_nil⟩
  simp only at h
  split at h
  · split at h
    · cases h
      exact onUtc_of_ne (by decide)
        (Value.all_dict.2 (hstart.update (Value.all_dict.1 haccumulators)))
    · cases h
  · cases h
    exact onUtc_of_ne (by decide) (Value.all_dict.2 hstart)

theorem onUtc_of_unwind {column keepEmpty index : Value} (hkeep : keepEmpty.OnUtc I)
    (hindex : index.OnUtc I) (h : unwind column keepEmpty index = .ok s) : s.OnUtc I := by
  obtain ⟨path, hpath, h⟩ := bind_eq_ok.1 h
  cases h
  have hreference : path.OnUtc I := Value.all_of_moments (Filter.moments_of_reference hpath)
  refine onUtc_of_ne (by decide) (Value.all_ofEntries.2 ?_)
  refine List.forall_mem_append.2 ⟨by simpa using ⟨hreference, hkeep⟩, ?_⟩
  split
  · exact List.forall_mem_singleton.2 hindex
  · exact List.forall_mem_nil _

theorem onUtc_entryIf {test : Value → Bool} {name : String} (hv : v.OnUtc I) :
    ∀ e ∈ entryIf test name v, e.2.OnUtc I := by
  unfold entryIf
  split
  · exact List.forall_mem_singleton.2 hv
  · exact List.forall_mem_nil _

theorem onUtc_of_lookup {options : Value} (hoptions : options.OnUtc I)
    (h : lookup options = .ok s) : s.OnUtc I := by
  obtain ⟨source, hsource, h⟩ := bind_eq_ok.1 h
  obtain ⟨entries, hentries, h⟩ := bind_eq_ok.1 h
  obtain ⟨landing, hlanding, h⟩ := bind_eq_ok.1 h
  cases h
  have hget : ∀ name, (Document.fieldOrNull entries name).OnUtc I :=
    (Value.all_of_entriesFor hoptions hentries).fieldOrNull
  refine onUtc_of_ne (by decide) (Value.all_ofEntries.2 ?_)
  simp only [List.forall_mem_append, List.forall_mem_cons]
  exact ⟨⟨⟨⟨Value.all_of_field hoptions hsource, onUtc_entryIf (hget _)⟩, onUtc_entryIf (hget _)⟩,
    Value.all_of_field hoptions hlanding, onUtc_entryIf (hget _)⟩, onUtc_entryIf (hget _)⟩

end Stage

/-! ## Refinements -/

namespace Refinement

variable {stages stages' new : List Stage} {s : Stage} {r : Refinement}

/-- Whether a refinement does nothing but filter. -/
def isFilter : Refinement → Bool
  | clause _ | anyOf _ | compare .. | near .. | arraySize .. => true
  | _ => false

/-- The values of a filter whose moments are put on a clock of UTC. -/
def normalized : Refinement → List Value
  | clause parts => parts
  | near _ place _ => [place]
  | arraySize _ condition => condition
  | _ => []

/-- The values of a filter that are taken over as they are. -/
def taken : Refinement → List Value
  | anyOf operations => Stage.operands (alternatives operations)
  | near _ _ maxDistance => [maxDistance]
  | _ => []

theorem run_addIf_eq_ok {outcome : Except Error Stage} :
    (addIf outcome).run stages = (.ok (), stages') ↔
      ∃ s, outcome = .ok s ∧ stages' = stages ++ [s] := by
  cases outcome with
  | error e =>
    refine iff_of_false (fun h => ?_) (by simp)
    cases h
  | ok s =>
    constructor
    · intro h
      cases h
      exact ⟨s, rfl, rfl⟩
    · rintro ⟨s, ⟨⟩, rfl⟩
      rfl

variable (I r) in
/-- Stages that a filter may add: what they send is on UTC exactly if what was taken over is, and
shows instants that were given, in their order. -/
structure Adds (new : List Stage) : Prop where
  onUtc_iff : (∀ s ∈ new, s.wire.OnUtc I) ↔ ∀ v ∈ r.taken, v.OnUtc I
  instants : (new.flatMap fun s => s.wire.instants).Sublist
    ((r.normalized ++ r.taken).flatMap Value.instants)

theorem exists_of_addClause {parts : List Value} (hparts : ∀ v ∈ parts, v.Within I)
    (h : (addClause parts).run stages = (.ok (), stages')) :
    ∃ d, stages' = stages ++ [.filter (.dict d)] ∧ Filter.Renders I (.list parts) (.dict d) := by
  obtain ⟨s, hs, rfl⟩ := run_addIf_eq_ok.1 h
  obtain ⟨f, hf, rfl⟩ := map_eq_ok.1 hs
  obtain ⟨d, rfl, hrenders⟩ := Filter.renders_of_ofClause hparts hf
  exact ⟨d, rfl, hrenders⟩

theorem flatMap_filter (f : Value) :
    ([Stage.filter f].flatMap fun s => s.wire.instants) = f.instants := by
  rw [List.flatMap_singleton, Stage.instants_wire]
  rfl

theorem adds_clause {parts : List Value} (hparts : ∀ v ∈ parts, v.Within I)
    (h : (clause parts).apply.run stages = (.ok (), stages')) :
    ∃ new, stages' = stages ++ new ∧ Adds I (clause parts) new := by
  obtain ⟨d, rfl, hutc, hinstants⟩ := exists_of_addClause hparts h
  refine ⟨_, rfl, iff_of_true ?_ (List.forall_mem_nil _), ?_⟩
  · exact List.forall_mem_singleton.2 (Value.all_single.2 hutc)
  · rw [Value.instants_list] at hinstants
    rw [flatMap_filter]
    simpa [normalized, taken] using hinstants

theorem onUtc_iff_of_anyOf {operations : List Value}
    (h : Stage.anyOf (alternatives operations) = .ok s) :
    s.OnUtc I ↔ ∀ v ∈ (anyOf operations).taken, v.OnUtc I := by
  obtain ⟨d, rfl, hmoments⟩ := Stage.exists_of_anyOf h
  rw [Stage.onUtc_filter_iff, Value.OnUtc, Value.All, hmoments]
  simp only [List.mem_flatMap, taken]
  constructor
  · intro h v hv m hm
    exact h m ⟨v, hv, hm⟩
  · rintro h m ⟨v, hv, hm⟩
    exact h v hv m hm

theorem adds_anyOf {operations : List Value}
    (h : (anyOf operations).apply.run stages = (.ok (), stages')) :
    ∃ new, stages' = stages ++ new ∧ Adds I (anyOf operations) new := by
  obtain ⟨s, hs, rfl⟩ := run_addIf_eq_ok.1 h
  obtain ⟨d, rfl, hmoments⟩ := Stage.exists_of_anyOf hs
  refine ⟨_, rfl, ?_, ?_⟩
  · rw [List.forall_mem_singleton, Stage.onUtc_wire_filter_iff]
    exact onUtc_iff_of_anyOf hs
  · rw [flatMap_filter, Value.instants, hmoments, List.map_flatMap]
    exact List.Sublist.refl _

theorem moments_of_comparison {column operator : Value} {others : List Value}
    (h : comparison column operator others = .ok w) : w.moments .parts = [] := by
  have hreferences : ∀ native : Value, (do
      let key ← native.asKey
      let references ← (column :: others).mapM Column.reference
      .ok (Expression.expr (.dict [(key, .list references)]))) = .ok w → w.moments .parts = [] := by
    intro native h
    obtain ⟨key, -, h⟩ := bind_eq_ok.1 h
    obtain ⟨references, hreferences, h⟩ := bind_eq_ok.1 h
    cases h
    simp only [Expression.expr, Expression.apply, Value.single, Value.moments,
      Value.momentsOfEntries, Value.momentsOfItems_eq, List.append_nil, List.flatMap_eq_nil_iff]
    intro v hv
    obtain ⟨name, -, hname⟩ := exists_of_mem_mapM hreferences hv
    exact Filter.moments_of_reference hname
  obtain ⟨isToken, -, h⟩ := bind_eq_ok.1 h
  simp only at h
  split at h
  · obtain ⟨found, -, h⟩ := bind_eq_ok.1 h
    exact hreferences (.text found.native) h
  · exact hreferences operator h

theorem adds_compare {column operator : Value} {others : List Value}
    (h : (compare column operator others).apply.run stages = (.ok (), stages')) :
    ∃ new, stages' = stages ++ new ∧ Adds I (compare column operator others) new := by
  obtain ⟨f, t, hf, h⟩ := Action.run_bind_eq_ok.1 h
  obtain ⟨hcomparison, rfl⟩ := Prod.mk.inj hf
  have hmoments := moments_of_comparison hcomparison
  obtain ⟨d, rfl, hutc, hinstants⟩ := exists_of_addClause (I := I)
    (List.forall_mem_singleton.2 (Value.all_of_moments hmoments)) h
  refine ⟨_, rfl, iff_of_true ?_ (List.forall_mem_nil _), ?_⟩
  · exact List.forall_mem_singleton.2 (Value.all_single.2 hutc)
  · have hnone : f.instants = [] := by rw [Value.instants, hmoments, List.map_nil]
    rw [Value.instants_list, List.flatMap_cons, hnone] at hinstants
    rw [flatMap_filter]
    exact hinstants

/-- The place is put on a clock of UTC, the greatest distance is not. -/
theorem exists_of_nearby {column place maxDistance : Value}
    (h : nearby column place maxDistance = .ok w) :
    ∃ d u, w = .dict d ∧ place.normalizeDates = .ok u ∧
      (Value.dict d).moments .parts = u.moments .parts ++ maxDistance.moments .parts := by
  obtain ⟨e, he, h⟩ := bind_eq_ok.1 h
  obtain ⟨key, -, h⟩ := bind_eq_ok.1 h
  obtain ⟨u, hu, he⟩ := bind_eq_ok.1 he
  cases he
  cases h
  refine ⟨_, u, rfl, hu, ?_⟩
  by_cases hnull : maxDistance.isNull = true
  · cases Value.isNull_eq_true.1 hnull
    simp [Value.single, Value.isNull]
  · simp [Value.single, hnull, Operator.native, Document.putField, Document.put, Value.same,
      Value.sameScalar]

theorem onUtc_iff_of_nearby {column place maxDistance : Value} (hplace : place.Within I)
    (h : nearby column place maxDistance = .ok w) :
    (Stage.filter w).OnUtc I ↔ maxDistance.OnUtc I := by
  obtain ⟨d, u, rfl, hu, hmoments⟩ := exists_of_nearby h
  have hutc := Value.onUtc_of_normalizeDates hplace hu
  rw [Stage.onUtc_filter_iff, Value.OnUtc, Value.All, hmoments, List.forall_mem_append]
  exact ⟨fun h => h.2, fun h => ⟨hutc, h⟩⟩

theorem adds_near {column place maxDistance : Value} (hplace : place.Within I)
    (h : (near column place maxDistance).apply.run stages = (.ok (), stages')) :
    ∃ new, stages' = stages ++ new ∧ Adds I (near column place maxDistance) new := by
  obtain ⟨s, hs, rfl⟩ := run_addIf_eq_ok.1 h
  obtain ⟨f, hf, rfl⟩ := map_eq_ok.1 hs
  have hiff := onUtc_iff_of_nearby hplace hf
  obtain ⟨d, u, rfl, hu, hmoments⟩ := exists_of_nearby hf
  refine ⟨_, rfl, ?_, ?_⟩
  · rw [List.forall_mem_singleton, Stage.onUtc_wire_filter_iff, hiff, taken,
      List.forall_mem_singleton]
  · rw [flatMap_filter, Value.instants, hmoments, List.map_append]
    change (u.instants ++ maxDistance.instants).Sublist _
    rw [Value.instants_of_normalizeDates hu]
    simp [normalized, taken]

theorem moments_of_size {column reference : Value} (h : Column.reference column = .ok reference)
    (name : Value) : (Value.dict [(name, .single "$size" reference)]).moments .parts = [] := by
  simp [Value.single, Filter.moments_of_reference h]

theorem adds_arraySize {column : Value} {condition : List Value}
    (hcondition : ∀ v ∈ condition, v.Within I)
    (h : (arraySize column condition).apply.run stages = (.ok (), stages')) :
    ∃ new, stages' = stages ++ new ∧ Adds I (arraySize column condition) new := by
  obtain ⟨reference, t, hr, h⟩ := Action.run_bind_eq_ok.1 h
  obtain ⟨hreference, rfl⟩ := Prod.mk.inj hr
  obtain ⟨⟨⟩, t, hadd, h⟩ := Action.run_bind_eq_ok.1 h
  cases hadd
  obtain ⟨d, rfl, hutc, hinstants⟩ := exists_of_addClause (I := I)
    (List.forall_mem_cons.2 ⟨Value.all_text _, hcondition⟩) h
  have hsize := moments_of_size hreference (sizeColumn column)
  rw [List.append_assoc]
  refine ⟨_, rfl, iff_of_true ?_ (List.forall_mem_nil _), ?_⟩
  · refine List.forall_mem_cons.2 ⟨?_, List.forall_mem_singleton.2 (Value.all_single.2 hutc)⟩
    exact Value.all_single.2 (Value.all_of_moments hsize)
  · have hnone : (Stage.addFields (.dict [(sizeColumn column,
        .single "$size" reference)])).wire.instants = [] :=
      (Stage.instants_wire _).trans (congrArg (List.map Moment.instant) hsize)
    rw [Value.instants_list, List.flatMap_cons] at hinstants
    rw [List.singleton_append, List.flatMap_cons, hnone, List.nil_append, flatMap_filter]
    change List.Sublist _ ((condition ++ []).flatMap Value.instants)
    rw [List.append_nil]
    exact hinstants

/-- What a filter adds to a pipeline. -/
theorem exists_of_apply (hfilter : r.isFilter = true) (hnormalized : ∀ v ∈ r.normalized, v.Within I)
    (h : r.apply.run stages = (.ok (), stages')) :
    ∃ new, stages' = stages ++ new ∧ Adds I r new := by
  cases r with
  | clause parts => exact adds_clause hnormalized h
  | anyOf operations => exact adds_anyOf h
  | compare column operator others => exact adds_compare h
  | near column place maxDistance => exact adds_near (hnormalized place List.mem_cons_self) h
  | arraySize column condition => exact adds_arraySize hnormalized h
  | _ => cases hfilter

/-- A query of filters alone is sent on UTC exactly if everything that was taken over is, and the
instants that it shows were given, in their order. -/
theorem onUtc_iff_of_filters {rs : List Refinement} (hfilters : ∀ r ∈ rs, r.isFilter = true)
    (hnormalized : ∀ r ∈ rs, ∀ v ∈ r.normalized, v.Within I)
    (h : (rs.forM apply).run stages = (.ok (), stages')) :
    ∃ new, stages' = stages ++ new ∧
      ((∀ s ∈ new, s.wire.OnUtc I) ↔ ∀ r ∈ rs, ∀ v ∈ r.taken, v.OnUtc I) ∧
      (new.flatMap fun s => s.wire.instants).Sublist
        (rs.flatMap fun r => (r.normalized ++ r.taken).flatMap Value.instants) := by
  induction rs generalizing stages with
  | nil =>
    cases h
    exact ⟨[], (List.append_nil _).symm, by simp, .slnil⟩
  | cons r rs ih =>
    obtain ⟨⟨⟩, t, hr, h⟩ := Action.run_bind_eq_ok.1 h
    obtain ⟨hfilter, hfilters⟩ := List.forall_mem_cons.1 hfilters
    obtain ⟨hfirst, hnormalized⟩ := List.forall_mem_cons.1 hnormalized
    obtain ⟨new, rfl, hadds⟩ := exists_of_apply hfilter hfirst hr
    obtain ⟨more, rfl, hiff, hinstants⟩ := ih hfilters hnormalized h
    refine ⟨new ++ more, List.append_assoc _ _ _, ?_, ?_⟩
    · rw [List.forall_mem_append, List.forall_mem_cons, hadds.onUtc_iff, hiff]
    · rw [List.flatMap_append, List.flatMap_cons]
      exact hadds.instants.append hinstants

/-! ### All refinements -/

/-- A refinement whose moments are on a clock of UTC, but for those of a filter that are put on one
anyway. -/
def Fit (I : Set Int) : Refinement → Prop
  | stage s => s.OnUtc I
  | raw v => ∀ s, Stage.ofValue v = .ok s → s.OnUtc I
  | raws vs => ∀ items, vs.parts = .ok items → ∀ v ∈ items, ∀ s, Stage.ofValue v = .ok s → s.OnUtc I
  | select columns => ∀ d, spread true columns = .dict d → (Value.dict d).OnUtc I
  | project v | addFields v | addField _ v | lookup v | sample v | skip v | limit v
  | groupByDate _ _ v => v.OnUtc I
  | unwind _ keepEmpty index => keepEmpty.OnUtc I ∧ index.OnUtc I
  | group (.stage name payload) _ => Stage.OnUtc I ⟨name, payload⟩
  | group key accumulators => key.OnUtc I ∧ accumulators.OnUtc I
  | r => (∀ v ∈ r.normalized, v.Within I) ∧ ∀ v ∈ r.taken, v.OnUtc I

/-- All stages are on a clock of UTC. -/
def AllOnUtc (I : Set Int) (stages : List Stage) : Prop :=
  ∀ s ∈ stages, s.OnUtc I

theorem upholds_add (hs : s.OnUtc I) : (add s).Upholds (AllOnUtc I) fun _ => True :=
  .modify fun _ hstages => List.forall_mem_append.2 ⟨hstages, List.forall_mem_singleton.2 hs⟩

theorem upholds_addIf {outcome : Except Error Stage} (h : ∀ s, outcome = .ok s → s.OnUtc I) :
    (addIf outcome).Upholds (AllOnUtc I) fun _ => True :=
  (Action.Upholds.ofExcept h).bind fun _ => upholds_add

theorem upholds_addClause {parts : List Value} (hparts : ∀ v ∈ parts, v.Within I) :
    (addClause parts).Upholds (AllOnUtc I) fun _ => True := by
  refine upholds_addIf fun s hs => ?_
  obtain ⟨f, hf, rfl⟩ := map_eq_ok.1 hs
  obtain ⟨d, rfl, hutc, -⟩ := Filter.renders_of_ofClause hparts hf
  exact Stage.onUtc_filter_iff.2 hutc

theorem upholds_addRaws {vs : List Value}
    (hvs : ∀ v ∈ vs, ∀ s, Stage.ofValue v = .ok s → s.OnUtc I) :
    (addRaws vs).Upholds (AllOnUtc I) fun _ => True := by
  induction vs with
  | nil => exact .pure trivial
  | cons v rest ih =>
    obtain ⟨hv, hrest⟩ := List.forall_mem_cons.1 hvs
    exact (upholds_addIf hv).bind fun _ _ => ih hrest

theorem upholds_addOneField {field content : Value} (hcontent : content.OnUtc I) :
    (addOneField field content).Upholds (AllOnUtc I) fun _ => True := by
  refine upholds_addIf fun s hs => ?_
  obtain ⟨key, -, hs⟩ := bind_eq_ok.1 hs
  cases hs
  exact Stage.onUtc_of_ne (by decide)
    (Value.all_dict.2 (Document.all_cons.2 ⟨hcontent, Document.all_nil⟩))

theorem onUtc_of_onColumn {operator : String} {column : Value}
    (h : Expression.onColumn operator column = .ok w) : w.OnUtc I := by
  obtain ⟨r, hr, h⟩ := bind_eq_ok.1 h
  cases h
  exact Value.all_single.2 (Value.all_of_moments (Filter.moments_of_reference hr))

theorem upholds_addLookup {options : Value} (hoptions : options.OnUtc I) :
    (addLookup options).Upholds (AllOnUtc I) fun _ => True := by
  refine (upholds_addIf fun s => Stage.onUtc_of_lookup hoptions).bind fun _ _ => ?_
  refine (Action.Upholds.ofExcept fun _ _ => trivial).bind fun entries _ => ?_
  simp only
  split
  · exact (Action.Upholds.ofExcept fun _ => onUtc_of_onColumn).bind fun _ => upholds_addOneField
  · exact .pure trivial

theorem onUtc_firstLimit (hstages : AllOnUtc I stages) : (firstLimit stages).OnUtc I := by
  unfold firstLimit
  cases hfound : stages.find? fun s => s.name == "limit" with
  | none => exact Value.all_null
  | some s => exact (hstages s (List.mem_of_find?_eq_some hfound)).payload

theorem all_of_dateKey {column : Value} {parts : List DatePart} (h : dateKey column parts = .ok d) :
    d.All .parts (Moment.ShowsUtc I) := by
  induction parts generalizing d with
  | nil =>
    cases h
    exact Document.all_nil
  | cons part rest ih =>
    obtain ⟨e, he, h⟩ := bind_eq_ok.1 h
    obtain ⟨d', hd', h⟩ := bind_eq_ok.1 h
    cases h
    have hpart : e.OnUtc I := by cases part <;> exact onUtc_of_onColumn he
    exact Document.all_cons.2 ⟨hpart, ih hd'⟩

/-- A fit refinement keeps all stages on UTC, whether it succeeds or not. -/
theorem upholds_apply (hr : r.Fit I) : r.apply.Upholds (AllOnUtc I) fun _ => True := by
  cases r with
  | stage s => exact upholds_add hr
  | raw v => exact upholds_addIf hr
  | raws vs => exact (Action.Upholds.ofExcept hr).bind fun _ => upholds_addRaws
  | clause parts => exact upholds_addClause hr.1
  | anyOf operations =>
    exact upholds_addIf fun s hs => (onUtc_iff_of_anyOf hs).2 hr.2
  | compare column operator others =>
    refine (Action.Upholds.ofExcept fun _ => moments_of_comparison).bind fun f hf => ?_
    exact upholds_addClause (List.forall_mem_singleton.2 (Value.all_of_moments hf))
  | near column place maxDistance =>
    refine upholds_addIf fun s hs => ?_
    obtain ⟨f, hf, rfl⟩ := map_eq_ok.1 hs
    exact (onUtc_iff_of_nearby (hr.1 place List.mem_cons_self) hf).2
      (hr.2 maxDistance List.mem_cons_self)
  | arraySize column condition =>
    refine (Action.Upholds.ofExcept fun _ => id).bind fun reference hreference => ?_
    have hsize : (Stage.addFields (.dict [(sizeColumn column,
        .single "$size" reference)])).OnUtc I :=
      Stage.onUtc_of_ne (by decide) (Value.all_of_moments (moments_of_size hreference _))
    exact (upholds_add hsize).bind fun _ _ =>
      upholds_addClause (List.forall_mem_cons.2 ⟨Value.all_text _, hr.1⟩)
  | select columns =>
    exact upholds_addIf fun s => Stage.onUtc_of_select fun d hd => hd ▸ hr d hd
  | deselect columns => exact upholds_addIf fun s => Stage.onUtc_of_marked
  | project payload => exact upholds_add (Stage.onUtc_of_ne (by decide) hr)
  | addFields fields => exact upholds_add (Stage.onUtc_of_ne (by decide) hr)
  | addField field content => exact upholds_addOneField hr
  | unwind column keepEmpty index =>
    exact upholds_addIf fun s => Stage.onUtc_of_unwind hr.1 hr.2
  | lookup options => exact upholds_addLookup hr
  | sort column direction => exact upholds_addIf fun s => Stage.onUtc_of_sort
  | sortBy columns => exact upholds_addIf fun s => Stage.onUtc_of_sortBy
  | sample size =>
    refine Action.Upholds.get.bind fun stages hstages => ?_
    simp only
    split
    · exact upholds_add (Stage.onUtc_of_ne (by decide)
        (Value.all_single.2 (Value.all_orElse hr (onUtc_firstLimit hstages))))
    · exact .throw _
  | skip count => exact upholds_add (Stage.onUtc_of_ne (by decide) hr)
  | limit count => exact upholds_add (Stage.onUtc_of_ne (by decide) hr)
  | group key accumulators =>
    by_cases hstage : ∃ name payload, key = .stage name payload
    · obtain ⟨name, payload, rfl⟩ := hstage
      exact upholds_add hr
    · have hplain : (group key accumulators).apply = addIf (Stage.group key accumulators) := by
        cases key <;> first | rfl | exact absurd ⟨_, _, rfl⟩ hstage
      have hfit : key.OnUtc I ∧ accumulators.OnUtc I := by
        cases key <;> first | exact hr | exact absurd ⟨_, _, rfl⟩ hstage
      rw [hplain]
      exact upholds_addIf fun s => Stage.onUtc_of_group hfit.1 hfit.2
  | groupByDate parts column accumulators =>
    refine (Action.Upholds.ofExcept fun _ => all_of_dateKey (I := I)).bind fun key hkey => ?_
    exact upholds_addIf fun s => Stage.onUtc_of_group (Value.all_dict.2 hkey) hr
  | reset => exact .set (List.forall_mem_nil _)

end Refinement

end DocumentMapper
