import DocumentMapper.Model.Store
import DocumentMapper.Proofs.Model.Clocks
import DocumentMapper.Proofs.Model.Sample

/-!
# Requests on a clock of UTC

A program hands requests over to the database, and what it has handed over can be kept in a
journal. The ways of running a query and the operations of a model are listed here, each with what
it needs for the journal to stay on UTC: filters and changes of queries may hold any moments, since
they are put on a clock of UTC, but alternatives, the greatest distance from a place and the data of
records are handed over as they are.
-/

namespace DocumentMapper

open Calendar Outcome DocumentMapper.Action

variable {σ : Type} {I : Set Int} {P : σ → Prop} {ctx : Context σ} {cascade : Cascade σ}
  {m : Model σ} {r : Record} {v : Value}

/-! ## Creating and changing records -/

namespace Store

theorem upholds_saved (hcascade : cascade.Settled I P) (hr : r.Settled I) {changes : Value}
    (hchanges : changes.Settled I) :
    (saved cascade r changes).Upholds P fun _ => True := by
  have hsave := hcascade.save { SaveOptions.standard with changes } hchanges
  refine (Upholds.alongside hr hsave).bind fun found _ => ?_
  exact (Upholds.ofExcept fun _ _ => trivial).bind fun _ _ => .pure trivial

theorem upholds_create (hcascade : cascade.Settled I P) (hv : v.Settled I) :
    (create cascade m v).Upholds P fun _ => True := by
  refine (Upholds.ofExcept fun r hr => Record.all_of_build hv hr).bind fun r hr => ?_
  exact upholds_saved hcascade hr Value.all_null

theorem upholds_update (hctx : ctx.Settled I P) (hcascade : cascade.Settled I P)
    {id changes : Value} (hid : id.Within I) (hchanges : changes.Settled I) :
    (update ctx cascade m id changes).Upholds P fun _ => True := by
  refine (Finder.upholds_find hctx hid).bind fun found hfound => ?_
  cases found with
  | none => exact .pure trivial
  | some r => exact (upholds_saved hcascade (hfound r rfl) hchanges).bind fun _ _ => .pure trivial

theorem upholds_findOrCreate (hctx : ctx.Settled I P) (hcascade : cascade.Settled I P)
    {filter : Value} (hfilter : Finder.Names I filter) (hv : v.Settled I) :
    (findOrCreate ctx cascade m filter v).Upholds P fun _ => True := by
  refine (Finder.upholds_first hctx hfilter).bind fun found _ => ?_
  cases found with
  | none => exact upholds_create hcascade hv
  | some r => exact .pure trivial

theorem upholds_updateOrCreate (hctx : ctx.Settled I P) (hcascade : cascade.Settled I P)
    {filter : Value} (hfilter : Finder.Names I filter) (hv : v.Settled I) :
    (updateOrCreate ctx cascade m filter v).Upholds P fun _ => True := by
  refine (Finder.upholds_first hctx hfilter).bind fun found hfound => ?_
  cases found with
  | none => exact upholds_create hcascade hv
  | some r => exact upholds_saved hcascade (hfound r rfl) hv

theorem upholds_destroyAll (hcascade : cascade.Settled I P) {rs : List Record}
    (hrs : ∀ r ∈ rs, r.Settled I) : (destroyAll cascade rs).Upholds P fun _ => True := by
  induction rs with
  | nil => exact .pure trivial
  | cons r rest ih =>
    obtain ⟨hr, hrest⟩ := List.forall_mem_cons.1 hrs
    refine (Upholds.alongside hr hcascade.destroy).bind fun found _ => ?_
    exact (Upholds.ofExcept fun _ _ => trivial).bind fun _ _ => ih hrest

theorem upholds_deleteMatching (hctx : ctx.Settled I P) (hcascade : cascade.Settled I P) :
    (deleteMatching ctx cascade).Upholds (Beside (Query.Fit I) P) fun _ => True := by
  refine (Query.upholds_fetch hctx none).bind fun vs hvs => ?_
  have hrecords : ∀ r ∈ vs.filterMap Record.ofValue?, r.Settled I := by
    intro r hr
    obtain ⟨v, hv, hrecord⟩ := List.mem_filterMap.1 hr
    exact Record.all_of_ofValue? (hvs (fun _ hmap => nomatch hmap) v hv) hrecord
  exact (Query.upholds_outside (upholds_destroyAll hcascade hrecords)).bind fun _ _ => .pure trivial

end Store

/-! ## Running queries -/

namespace Query

/-- The ways of running a query, with what the caller gives. Deleting what matches deletes records
one by one, deleting many deletes documents at once. -/
inductive Method (σ : Type) where
  | execute
  | fetch (map : Option Transform)
  | first (map : Option Transform)
  | last (filters : Value)
  | count
  | paginate (page limit : Value) (map : Option Transform)
  | chunk (limit : Value) (visit : Visit σ) (map : Option Transform)
  | update (changes : Value)
  | unset (columns : List Value)
  | explain
  | pluck (column : Value)
  | deleteMany
  | deleteMatching
  | distinct (column : Value)
  | distinctPresent (column : Value)
  | values (column : Value)
  | average (column : Value)
  | sum (column : Value)
  | least (column : Value)
  | greatest (column : Value)

namespace Method

variable (ctx cascade) in
/-- Runs a query, whatever comes of it. -/
def act : Method σ → Run σ Unit
  | execute => discard (Query.execute ctx)
  | fetch map => discard (Query.fetch ctx map)
  | first map => discard (Query.first ctx map)
  | last filters => discard (Query.last ctx filters)
  | count => discard (Query.count ctx)
  | paginate page limit map => discard (Query.paginate ctx page limit map)
  | chunk limit visit map => Query.chunk ctx limit visit map
  | update changes => discard (Query.update ctx changes)
  | unset columns => discard (Query.unset ctx columns)
  | explain => discard (Query.explain ctx)
  | pluck column => discard (Query.pluck ctx column)
  | deleteMany => discard (Query.deleteMany ctx)
  | deleteMatching => discard (Store.deleteMatching ctx cascade)
  | distinct column => discard (Query.distinct ctx column)
  | distinctPresent column => discard (Query.distinctPresent ctx column)
  | values column => discard (Query.values ctx column)
  | average column => discard (Query.average ctx column)
  | sum column => discard (Query.sum ctx column)
  | least column => discard (Query.least ctx column)
  | greatest column => discard (Query.greatest ctx column)

/-- Filters and changes name no other instants; what is not put on a clock of UTC is on one. -/
def Fit (I : Set Int) (P : σ → Prop) : Method σ → Prop
  | last v | update v | distinctPresent v => v.Within I
  | unset columns => ∀ v ∈ columns, v.OnUtc I
  | values v => v.OnUtc I
  | chunk _ visit _ => ∀ vs info, (visit vs info).Preserves P
  | _ => True

theorem upholds_discard {α : Type} {act : Run σ α} {Q : α → Prop}
    (h : act.Upholds (Beside (Query.Fit I) P) Q) :
    (discard act : Run σ Unit).Upholds (Beside (Query.Fit I) P) fun _ => True :=
  h.map fun _ _ => trivial

/-- A fit query that is run in any way hands over nothing but moments on a clock of UTC. -/
theorem upholds_act (hctx : ctx.Settled I P) (hcascade : cascade.Settled I P) {method : Method σ}
    (hmethod : method.Fit I P) :
    (method.act ctx cascade).Upholds (Beside (Query.Fit I) P) fun _ => True := by
  cases method with
  | execute => exact upholds_discard (upholds_execute hctx)
  | fetch map => exact upholds_discard (upholds_fetch hctx map)
  | first map => exact upholds_discard (upholds_first hctx map)
  | last filters => exact upholds_discard (upholds_last hctx hmethod)
  | count => exact upholds_discard (upholds_count hctx)
  | paginate page limit map => exact upholds_discard (upholds_paginate hctx page limit map)
  | chunk limit visit map => exact upholds_chunk hctx hmethod limit map
  | update changes => exact upholds_discard (upholds_update hctx hmethod)
  | unset columns => exact upholds_discard (upholds_unset hctx hmethod)
  | explain => exact upholds_discard (upholds_explain hctx)
  | pluck column => exact upholds_discard (upholds_pluck hctx column)
  | deleteMany => exact upholds_discard (upholds_deleteMany hctx)
  | deleteMatching => exact upholds_discard (Store.upholds_deleteMatching hctx hcascade)
  | distinct column =>
    exact upholds_discard (upholds_gathered hctx fun _ => Refinement.onUtc_of_onColumn)
  | distinctPresent column =>
    have hclause : (Refinement.clause [column, .text "!=", .null]).Fit I :=
      ⟨List.forall_mem_cons.2 ⟨hmethod, List.forall_mem_cons.2
        ⟨Value.all_text _, List.forall_mem_singleton.2 Value.all_null⟩⟩, List.forall_mem_nil _⟩
    exact upholds_discard ((upholds_refine hclause).bind fun _ _ =>
      upholds_gathered hctx fun _ => Refinement.onUtc_of_onColumn)
  | values column => exact upholds_discard (upholds_gathered hctx fun _ => onUtc_of_push hmethod)
  | average column =>
    exact upholds_discard (upholds_accumulate hctx _ fun _ => Refinement.onUtc_of_onColumn)
  | sum column =>
    refine upholds_discard (upholds_accumulate hctx _ fun e he => ?_)
    obtain ⟨sum, hsum, he⟩ := bind_eq_ok.1 he
    exact onUtc_of_bound (Refinement.onUtc_of_onColumn hsum) he
  | least column =>
    exact upholds_discard (upholds_accumulate hctx _ fun _ => Refinement.onUtc_of_onColumn)
  | greatest column =>
    exact upholds_discard (upholds_accumulate hctx _ fun _ => Refinement.onUtc_of_onColumn)

end Method

/-- A chain of refinements does to the query what it does to its stages. -/
theorem run_forM_refine {rs : List Refinement} {q : Query} {stages : List Stage}
    (h : (rs.forM Refinement.apply).run q.stages = (.ok (), stages)) (s : σ) :
    (rs.forM refine : Run σ Unit).run (q, s) = (.ok (), { q with stages }, s) := by
  induction rs generalizing q with
  | nil =>
    cases h
    rfl
  | cons r rest ih =>
    obtain ⟨⟨⟩, middle, hr, hrest⟩ := Action.run_bind_eq_ok.1 h
    have hrefine : (refine r : Run σ Unit).run (q, s) =
        (.ok (), { q with stages := middle }, s) := by
      simp only [refine, Action.first, onStages, Action.within, hr]
    refine (Action.run_bind_ok hrefine).trans (ih ?_)
    exact hrest

/-- A query of which nobody hears is sent as it is. -/
theorem run_execute_silent {q : Query} (hq : q.source ≠ .detached) (hsilent : audience ctx q = [])
    (s : σ) :
    (execute ctx).run (q, s) =
      (outside (ctx.request q.collection (.aggregate q.wire))).run (q, s) := by
  have hexecutor : (requireExecutor : Run σ Unit).run (q, s) = (.ok (), q, s) := by
    cases hsource : q.source with
    | detached => exact absurd hsource hq
    | attached events => simp [requireExecutor, current, Action.run_bind, hsource]
    | model name => simp [requireExecutor, current, Action.run_bind, hsource]
  have hannounce : (announce ctx .fetching).run (q, s) = (.ok (), q, s) := by
    change (ctx.tell (audience ctx q) .fetching fun l => l.onQuery).run (q, s) = _
    rw [hsilent]
    rfl
  exact (Action.run_bind_ok hexecutor).trans (Action.run_bind_ok hannounce)

end Query

/-! ## Operations of models -/

namespace Store

/-- What a model does with its records, with what the caller gives. -/
inductive Method (σ : Type) where
  | create (v : Value)
  | save (r : Record) (o : SaveOptions)
  | destroy (r : Record)
  | update (id changes : Value)
  | findOrCreate (filter v : Value)
  | updateOrCreate (filter v : Value)
  | find (id : Value)
  | findBy (column v : Value)
  | first (filter : Value)
  | last (filter : Value)
  | latest (filter : Value)
  | list (filter : Value)
  | count (filter : Value)
  | «exists» (filter : Value)
  | distinct (column : String) (filter : Value)
  | paginate (filter page limit : Value)
  | chunk (limit : Value) (visit : Query.Visit σ) (filter : Value)
  | delete (filter : Value)
  | nextId
  | lastId

namespace Method

variable (ctx cascade m) in
/-- Does it, whatever comes of it. -/
def act : Method σ → Action σ Unit
  | create v => discard (Store.create cascade m v)
  | save r o => discard (Action.alongside r (cascade.save o))
  | destroy r => discard (Action.alongside r cascade.destroy)
  | update id changes => discard (Store.update ctx cascade m id changes)
  | findOrCreate filter v => discard (Store.findOrCreate ctx cascade m filter v)
  | updateOrCreate filter v => discard (Store.updateOrCreate ctx cascade m filter v)
  | find id => discard (Finder.find ctx m id)
  | findBy column v => discard (Finder.findBy ctx m column v)
  | first filter => discard (Finder.first ctx m filter)
  | last filter => discard (Finder.last ctx m filter)
  | latest filter => discard (Finder.latest ctx m filter)
  | list filter => discard (Finder.list ctx m filter)
  | count filter => discard (Finder.count ctx m filter)
  | «exists» filter => discard (Finder.exists ctx m filter)
  | distinct column filter => discard (Finder.distinct ctx m column filter)
  | paginate filter page limit => discard (Finder.paginate ctx m filter page limit)
  | chunk limit visit filter => Finder.chunk ctx m limit visit filter
  | delete filter => discard (Finder.delete ctx m filter)
  | nextId => discard (Finder.nextId ctx m)
  | lastId => discard (Finder.lastId ctx m)

/-- Filters and identities name no other instants; records and their changes are settled. -/
def Fit (I : Set Int) (P : σ → Prop) : Method σ → Prop
  | create v => v.Settled I
  | save r o => r.Settled I ∧ o.changes.Settled I
  | destroy r => r.Settled I
  | update id changes => id.Within I ∧ changes.Settled I
  | findOrCreate filter v | updateOrCreate filter v => Finder.Names I filter ∧ v.Settled I
  | find v | findBy _ v => v.Within I
  | chunk _ visit filter => Finder.Names I filter ∧ ∀ vs info, (visit vs info).Preserves P
  | first filter | last filter | latest filter | list filter | count filter | «exists» filter
  | distinct _ filter | paginate filter _ _ | delete filter => Finder.Names I filter
  | nextId | lastId => True

theorem upholds_discard {α : Type} {act : Action σ α} {Q : α → Prop} (h : act.Upholds P Q) :
    (discard act : Action σ Unit).Upholds P fun _ => True :=
  h.map fun _ _ => trivial

/-- What a model does with settled records hands over nothing but moments on a clock of UTC. -/
theorem upholds_act (hctx : ctx.Settled I P) (hcascade : cascade.Settled I P) {method : Method σ}
    (hmethod : method.Fit I P) : (method.act ctx cascade m).Upholds P fun _ => True := by
  cases method with
  | create v => exact upholds_discard (upholds_create hcascade hmethod)
  | save r o => exact upholds_discard (.alongside hmethod.1 (hcascade.save o hmethod.2))
  | destroy r => exact upholds_discard (.alongside hmethod hcascade.destroy)
  | update id changes => exact upholds_discard (upholds_update hctx hcascade hmethod.1 hmethod.2)
  | findOrCreate filter v =>
    exact upholds_discard (upholds_findOrCreate hctx hcascade hmethod.1 hmethod.2)
  | updateOrCreate filter v =>
    exact upholds_discard (upholds_updateOrCreate hctx hcascade hmethod.1 hmethod.2)
  | find id => exact upholds_discard (Finder.upholds_find hctx hmethod)
  | findBy column v => exact upholds_discard (Finder.upholds_findBy hctx hmethod)
  | first filter => exact upholds_discard (Finder.upholds_first hctx hmethod)
  | last filter => exact upholds_discard (Finder.upholds_last hctx hmethod)
  | latest filter => exact upholds_discard (Finder.upholds_latest hctx hmethod)
  | list filter => exact upholds_discard (Finder.upholds_list hctx hmethod)
  | count filter => exact upholds_discard (Finder.upholds_count hctx hmethod)
  | «exists» filter => exact upholds_discard (Finder.upholds_exists hctx hmethod)
  | distinct column filter => exact upholds_discard (Finder.upholds_distinct hctx column hmethod)
  | paginate filter page limit =>
    have hpage := Query.upholds_paginate hctx page limit none
    exact upholds_discard (Finder.upholds_filtered hctx hmethod hpage)
  | chunk limit visit filter =>
    have hvisits := Query.upholds_chunk hctx hmethod.2 limit none
    exact Finder.upholds_filtered hctx hmethod.1 hvisits
  | delete filter => exact upholds_discard (Finder.upholds_delete hctx hmethod)
  | nextId => exact upholds_discard (Finder.upholds_nextId hctx)
  | lastId => exact upholds_discard (Finder.upholds_lastId hctx)

end Method

end Store

/-! ## The journal -/

namespace Context

/-- Every request that is handed over to the database is put into the journal. -/
def Journals (ctx : Context σ) (journal : σ → List Request) : Prop :=
  ∀ r s, journal ((ctx.execute r).run s).2 = journal s ++ [r]

/-- Every request in the journal is on UTC. -/
def OnUtcSoFar (I : Set Int) (journal : σ → List Request) (s : σ) : Prop :=
  ∀ r ∈ journal s, r.operation.OnUtc I

/-- What a program hands over from a state on. -/
structure HandsUtc (I : Set Int) (ctx : Context σ) (journal : σ → List Request) (s : σ) : Prop where
  /-- A query of filters of which nobody hears is handed over on UTC exactly if the filters took
  over nothing else, and it shows instants that the filters were given, in their order. -/
  filters : ∀ collection source (rs : List Refinement) stages, source ≠ .detached →
    Query.audience ctx (.fresh collection source) = [] → (∀ r ∈ rs, r.isFilter = true) →
    (∀ r ∈ rs, ∀ v ∈ r.normalized, v.Within I) →
    (rs.forM Refinement.apply).run [] = (.ok (), stages) →
    ∃ pipeline,
      journal (((Query.fresh collection source).launch do
        rs.forM Query.refine
        Query.execute ctx).run s).2 = journal s ++ [⟨collection, .aggregate pipeline⟩] ∧
      ((∀ v ∈ pipeline, v.OnUtc I) ↔ ∀ r ∈ rs, ∀ v ∈ r.taken, v.OnUtc I) ∧
      (pipeline.flatMap Value.instants).Sublist
        (rs.flatMap fun r => (r.normalized ++ r.taken).flatMap Value.instants)
  /-- A chain of refinements, run in any way, hands over nothing else if what is taken over as it
  is is on UTC. -/
  queries : ∀ collection source (rs : List Refinement) (method : Query.Method σ) depth,
    (∀ r ∈ rs, r.Fit I) → method.Fit I (OnUtcSoFar I journal) →
    OnUtcSoFar I journal (((Query.fresh collection source).launch do
      rs.forM Query.refine
      method.act ctx (Lifecycle.cascade ctx depth)).run s).2
  /-- No operation of a model hands over anything else if its records and changes are settled. -/
  models : ∀ (m : Model σ) (method : Store.Method σ) depth, method.Fit I (OnUtcSoFar I journal) →
    OnUtcSoFar I journal ((method.act ctx (Lifecycle.cascade ctx depth) m).run s).2

/-- A query of which nobody hears is handed over stage by stage, and nothing else is. -/
theorem journal_pipeline {journal : σ → List Request} (hjournal : ctx.Journals journal)
    {collection : String} {source : Source} {rs : List Refinement} {stages : List Stage}
    (hsource : source ≠ .detached) (hsilent : Query.audience ctx (.fresh collection source) = [])
    (h : (rs.forM Refinement.apply).run [] = (.ok (), stages)) (s : σ) :
    journal (((Query.fresh collection source).launch do
      rs.forM Query.refine
      Query.execute ctx).run s).2 =
        journal s ++ [⟨collection, .aggregate (stages.map Stage.wire)⟩] := by
  have hchain : (do
      rs.forM Query.refine
      Query.execute ctx : Query.Run σ (List Document)).run (.fresh collection source, s) = _ :=
    (Action.run_bind_ok (Query.run_forM_refine h s)).trans
      (Query.run_execute_silent (q := { Query.fresh collection source with stages }) hsource
        hsilent s)
  rw [← hjournal]
  exact congrArg (fun found => journal found.2.2) hchain

/-- In surroundings that give nothing but moments on UTC, nothing else is handed over as long as the
data of records and what filters take over are on UTC; in a query of filters these alone decide. -/
theorem requests_onUtc {journal : σ → List Request} (hjournal : ctx.Journals journal)
    (hctx : ctx.Settled I (OnUtcSoFar I journal)) {s : σ} (hs : OnUtcSoFar I journal s) :
    ctx.HandsUtc I journal s where
  filters collection source rs stages hsource hsilent hfilters hnormalized h := by
    obtain ⟨new, hnew, hiff, hinstants⟩ :=
      Refinement.onUtc_iff_of_filters hfilters hnormalized h
    rw [List.nil_append] at hnew
    refine ⟨_, journal_pipeline hjournal hsource hsilent h s, ?_, ?_⟩
    · rw [hnew, List.forall_mem_map]
      exact hiff
    · rw [hnew, List.flatMap_map]
      exact hinstants
  queries collection source rs method depth hrs hmethod := by
    have hcascade := Lifecycle.settled_cascade hctx depth
    have hchain : (do
        rs.forM Query.refine
        method.act ctx (Lifecycle.cascade ctx depth) : Query.Run σ Unit).Upholds
          (Beside (Query.Fit I) (OnUtcSoFar I journal)) fun _ => True :=
      (Upholds.forM fun r hr => Query.upholds_refine (hrs r hr)).bind fun _ _ =>
        Query.Method.upholds_act hctx hcascade hmethod
    exact (Finder.upholds_launch (Finder.fit_fresh collection source) hchain s hs).1
  models m method depth hmethod := by
    have hcascade := Lifecycle.settled_cascade hctx depth
    exact (Store.Method.upholds_act hctx hcascade hmethod s hs).1

end Context

/-! ## A database that keeps a journal -/

namespace Context

theorem journals_journaling : journaling.Journals id :=
  fun _ _ => rfl

theorem settled_nothing (op : Operation) : ∀ v ∈ op.answered op.nothing, v.Settled I := by
  cases op with
  | explain pipeline => exact List.forall_mem_singleton.2 (Value.all_dict.2 Document.all_nil)
  | insertOne d => exact List.forall_mem_singleton.2 (Value.all_int 7)
  | _ => exact List.forall_mem_nil _

theorem all_plain {p : Moment → Prop} (name : String) : (Schema.plain name).All p where
  methods _ _ h := nomatch h
  settings setting v h := by
    unfold Record.setting? at h
    split at h <;> cases h <;> exact Value.all_of_moments rfl

/-- Noon is the only instant that is shown where nothing else is given. -/
theorem settled_journaling :
    journaling.Settled {Sample.noon.instant} (OnUtcSoFar {Sample.noon.instant} id) where
  execute r hr := by
    intro s hs
    refine ⟨List.forall_mem_append.2 ⟨hs, List.forall_mem_singleton.2 hr⟩, fun a ha => ?_⟩
    cases ha
    exact settled_nothing r.operation
  now := .pure ⟨rfl, rfl⟩
  log _ := Preserves.pure ()
  listeners _ _ := .pure (List.forall_mem_nil _)
  models name := {
    schema := all_plain name
    casts := List.forall_mem_nil _
    defaults := List.forall_mem_nil _
    rules := List.forall_mem_nil _ }

/-- A filter of a naive moment is put on a clock of UTC, a stored moment of UTC stays on one. -/
theorem requests_onUtc_journaling :
    journaling.Journals id ∧
    journaling.Settled {Sample.noon.instant} (OnUtcSoFar {Sample.noon.instant} id) ∧
    OnUtcSoFar {Sample.noon.instant} id [] ∧
    (∃ pipeline,
      (((Query.fresh "orders" (.attached none)).launch do
        Sample.beforeNoon.forM Query.refine
        Query.execute journaling).run []).2 = [⟨"orders", .aggregate pipeline⟩] ∧
      ∀ v ∈ pipeline, v.OnUtc {Sample.noon.instant}) ∧
    OnUtcSoFar {Sample.noon.instant} id (((Store.Method.create (Sample.order Sample.noonUtc)).act
      journaling (Lifecycle.cascade journaling 1) (journaling.model "Order")).run []).2 := by
  have hempty : OnUtcSoFar {Sample.noon.instant} id [] := List.forall_mem_nil _
  have hhanded := requests_onUtc journals_journaling settled_journaling hempty
  have hnoon : ∀ v ∈ [Value.text "createdAt", .text "<", .moment Sample.noon],
      v.Within {Sample.noon.instant} := by
    refine List.forall_mem_cons.2 ⟨Value.all_text _, List.forall_mem_cons.2 ⟨Value.all_text _, ?_⟩⟩
    exact List.forall_mem_singleton.2 (Value.all_moment.2 rfl)
  obtain ⟨pipeline, hrun, hiff, -⟩ := hhanded.filters "orders" (.attached none) Sample.beforeNoon
    [.filter (.dict [(.text "createdAt", .single "$lt" (.moment Sample.noonUtc))])]
    (by decide) rfl (List.forall_mem_singleton.2 rfl) (List.forall_mem_singleton.2 hnoon) rfl
  have hsettled : (Sample.order Sample.noonUtc).Settled {Sample.noon.instant} :=
    Value.all_dict.2 (Document.all_cons.2 ⟨Value.all_int 31, Document.all_cons.2
      ⟨Value.all_moment.2 ⟨rfl, rfl⟩, Document.all_nil⟩⟩)
  have hcreated := hhanded.models (journaling.model "Order")
    (.create (Sample.order Sample.noonUtc)) 1 hsettled
  exact ⟨journals_journaling, settled_journaling, hempty, ⟨pipeline, hrun,
    hiff.2 (List.forall_mem_singleton.2 (List.forall_mem_nil _))⟩, hcreated⟩

/-- An alternative and a record of a naive moment are handed over as they are. -/
theorem not_onUtc_naive :
    ¬ OnUtcSoFar Set.univ id (((Query.fresh "orders" (.attached none)).launch do
      Sample.anyAtNoon.forM Query.refine
      Query.execute journaling).run []).2 ∧
    ¬ OnUtcSoFar Set.univ id (((Store.Method.create (Sample.order Sample.noon)).act
      journaling (Lifecycle.cascade journaling 1) (journaling.model "Order")).run []).2 := by
  constructor
  · have hrun : (((Query.fresh "orders" (.attached none)).launch do
        Sample.anyAtNoon.forM Query.refine
        Query.execute journaling).run []).2 = [⟨"orders", .aggregate [.single "$match"
          (.single "$or" (.list [.dict [(.text "createdAt", .moment Sample.noon)]]))]⟩] := rfl
    rw [hrun]
    intro h
    have hnoon := h _ List.mem_cons_self _ List.mem_cons_self Sample.noon List.mem_cons_self
    cases hnoon.1
  · have hrun : (((Store.Method.create (Sample.order Sample.noon)).act journaling
        (Lifecycle.cascade journaling 1) (journaling.model "Order")).run []).2 =
          [⟨"", .insertOne [(.text "id", .int 31), (.text "due", .moment Sample.noon),
            (.text "createdAt", .moment Sample.noonUtc),
            (.text "updatedAt", .moment Sample.noonUtc)]⟩] := rfl
    rw [hrun]
    intro h
    have hnoon := h _ List.mem_cons_self _ List.mem_cons_self Sample.noon List.mem_cons_self
    cases hnoon.1

end Context

end DocumentMapper
