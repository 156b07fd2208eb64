import DocumentMapper.Proofs.Query.Moments
import DocumentMapper.Proofs.Sync.Moments
import DocumentMapper.Proofs.Value.Casts
import DocumentMapper.Query.Execution

/-!
# What queries hand over

The state of a program is left open, so that what is handed over to the database can only be told
by a property of the state that requests on a clock of UTC keep. A query whose stages are on UTC
keeps every such property, whichever way it is run, if the clock, the database and the listeners
give nothing else.
-/

namespace DocumentMapper

open Calendar Outcome DocumentMapper.Action

variable {σ : Type} {I : Set Int} {P : σ → Prop} {v w : Value} {d : Document}

/-! ## Requests and answers -/

namespace Operation

/-- The values that a request hands over. -/
def handed : Operation → List Value
  | aggregate pipeline | explain pipeline => pipeline
  | insertOne d => [.dict d]
  | insertMany ds => ds.map .dict
  | replaceOne filter d _ => [.dict filter, .dict d]
  | updateOne filter update _ | updateMany filter update | findOneAndUpdate filter update _ =>
    [.dict filter, update]
  | deleteOne filter | deleteMany filter | findOne filter => [.dict filter]
  | findMany filter sort _ => [.dict filter, .dict (sort.getD [])]
  | count filter | distinct _ filter => [.dict (filter.getD [])]

/-- The values that an answer gives. -/
def answered : (op : Operation) → op.Answer → List Value
  | aggregate _, ds | findMany .., ds => ds.map .dict
  | explain _, d => [.dict d]
  | insertOne _, v => [v]
  | insertMany _, vs | distinct .., vs => vs
  | findOneAndUpdate .., d | findOne _, d => (d.map .dict).toList
  | replaceOne .., _ | updateOne .., _ | updateMany .., _ | deleteOne _, _ | deleteMany _, _
  | count _, _ => []

/-- A request in which every moment is on a clock of UTC and shows one of the instants. -/
def OnUtc (I : Set Int) (op : Operation) : Prop :=
  ∀ v ∈ op.handed, v.OnUtc I

end Operation

/-! ## Surroundings -/

/-- What is made of settled values is settled. -/
def Transform.Keeps (I : Set Int) (t : Transform) : Prop :=
  ∀ v w : Value, v.Settled I → t v = .ok w → w.Settled I

/-- The stages of a query are on a clock of UTC, and its joins make settled values of settled
ones. -/
structure Query.Fit (I : Set Int) (q : Query) : Prop where
  stages : Refinement.AllOnUtc I q.stages
  transforms : ∀ e ∈ q.transforms, Transform.Keeps I e.2

/-- A listener that leaves what it hears of settled. -/
structure Listener.Settled (I : Set Int) (P : σ → Prop) (l : Listener σ) : Prop where
  onRecord : ∀ old : Option Record, (∀ r ∈ old, r.All (Moment.ShowsUtc I)) →
    (l.onRecord old).Upholds (Beside (Record.All (Moment.ShowsUtc I)) P) fun _ => True
  onSearch : ∀ model, (l.onSearch model).Upholds
    (Beside (Document.All .parts (Moment.ShowsUtc I)) P) fun _ => True
  onQuery : l.onQuery.Upholds (Beside (Query.Fit I) P) fun _ => True

/-- A cast rule that makes settled values of settled ones. A date that is read may show any instant
that values stand for. -/
def CastRule.Settled (I : Set Int) (P : σ → Prop) : CastRule σ → Prop
  | .named type => CastKind.ofName type = .date →
    ∀ (v : Value) (m : Moment), v.parseMoment = .ok (.moment m) → m.instant ∈ I
  | .model _ => True
  | .custom cast => ∀ v column (r : Record), v.Settled I → r.All (Moment.ShowsUtc I) →
    (cast v column r).Upholds P (Value.Settled I)

def Default.Settled (I : Set Int) : Default → Prop
  | .value v => v.Settled I
  | .computed f => ∀ r : Record, r.All (Moment.ShowsUtc I) → ∀ v, f r = .ok v → v.Settled I

/-- A rule whose refiner leaves the query for its targets on UTC. -/
def Sync.Rule.Settled (I : Set Int) (P : σ → Prop) (rule : Sync.Rule σ) : Prop :=
  ∀ refiner ∈ rule.refiner, refiner.Upholds (Beside (Query.Fit I) P) fun _ => True

/-- A model that adds nothing but settled values to its records. -/
structure Model.Settled (I : Set Int) (P : σ → Prop) (m : Model σ) : Prop where
  schema : m.toSchema.All (Moment.ShowsUtc I)
  casts : ∀ e ∈ m.casts, e.2.Settled I P
  defaults : ∀ e ∈ m.defaults, e.2.Settled I
  rules : ∀ rule ∈ m.rules, rule.Settled I P

/-- Surroundings in which a property of the state is kept by requests on UTC and by everything else
that is not the program's own: the clock, the log, the listeners and what models declare. They give
nothing but settled values. -/
structure Context.Settled (I : Set Int) (P : σ → Prop) (ctx : Context σ) : Prop where
  execute : ∀ r : Request, r.operation.OnUtc I →
    (ctx.execute r).Upholds P fun a => ∀ v ∈ r.operation.answered a, v.Settled I
  now : ctx.now.Upholds P (Moment.ShowsUtc I)
  log : ∀ entry, (ctx.log entry).Preserves P
  listeners : ∀ id event, (ctx.listeners id event).Upholds P fun ls => ∀ l ∈ ls, l.Settled I P
  models : ∀ name, (ctx.model name).Settled I P

/-- What every listener that is found leaves as it must be is so when all have heard. -/
theorem Context.upholds_tell {ctx : Context σ} {α : Type} {A : α → Prop} {L : Listener σ → Prop}
    {registries : List RegistryId} {event : Event} {call : Listener σ → Action (α × σ) Unit}
    (hlisteners : ∀ id event, (ctx.listeners id event).Upholds P fun ls => ∀ l ∈ ls, L l)
    (hcall : ∀ l, L l → (call l).Upholds (Beside A P) fun _ => True) :
    (ctx.tell registries event call).Upholds (Beside A P) fun _ => True :=
  .forM fun id _ => (Upholds.second (hlisteners id event)).bind fun _ hls =>
    .forM fun l hl => hcall l (hls l hl)

namespace Context.Settled

variable {ctx : Context σ}

theorem request (hctx : ctx.Settled I P) (collection : String) {op : Operation}
    (hop : op.OnUtc I) :
    (ctx.request collection op).Upholds P fun a => ∀ v ∈ op.answered a, v.Settled I :=
  hctx.execute ⟨collection, op⟩ hop

theorem report (hctx : ctx.Settled I P) (logger : String) (level : Log.Level) (message : String)
    (context : Value) :
    (ctx.report logger level message context).Upholds P fun _ => True :=
  (Upholds.ofExcept fun _ _ => trivial).bind fun _ _ => (hctx.log _).upholds

theorem tell (hctx : ctx.Settled I P) {α : Type} {A : α → Prop} {registries : List RegistryId}
    {event : Event} {call : Listener σ → Action (α × σ) Unit}
    (hcall : ∀ l : Listener σ, l.Settled I P → (call l).Upholds (Beside A P) fun _ => True) :
    (ctx.tell registries event call).Upholds (Beside A P) fun _ => True :=
  upholds_tell hctx.listeners hcall

end Context.Settled

namespace Query

variable {ctx : Context σ} {α : Type} {r : Refinement} {A : Query → Prop}

/-! ## Running a pipeline -/

theorem upholds_current : (current : Run σ Query).Upholds (Beside A P) A :=
  Upholds.get.bind fun _ ht => .pure ht.1

theorem upholds_onStages {act : Action (List Stage) Unit}
    (h : act.Upholds (Refinement.AllOnUtc I) fun _ => True) :
    (onStages act).Upholds (Fit I) fun _ => True :=
  fun q hq => ⟨⟨(h q.stages hq.stages).1, hq.transforms⟩, fun _ _ => trivial⟩

theorem upholds_refine (hr : r.Fit I) :
    (refine r : Run σ Unit).Upholds (Beside (Fit I) P) fun _ => True :=
  .first (upholds_onStages (Refinement.upholds_apply hr))

theorem upholds_outside {act : Action σ α} {Q : α → Prop} (h : act.Upholds P Q) :
    (outside act).Upholds (Beside A P) Q :=
  .second h

theorem upholds_check {outcome : Except Error α} :
    (check outcome : Run σ α).Upholds (Beside A P) fun a => outcome = .ok a :=
  .ofExcept fun _ h => h

theorem upholds_requireExecutor :
    (requireExecutor : Run σ Unit).Upholds (Beside A P) fun _ => True := by
  refine upholds_current.bind fun q _ => ?_
  split
  · exact .throw _
  · exact .pure trivial

theorem upholds_announce (hctx : ctx.Settled I P) (event : Event) :
    (announce ctx event).Upholds (Beside (Fit I) P) fun _ => True :=
  upholds_current.bind fun _ _ => hctx.tell fun _ hl => hl.onQuery

theorem onUtc_wire {q : Query} (hq : q.Fit I) : ∀ v ∈ q.wire, v.OnUtc I :=
  List.forall_mem_map.2 fun s hs => Stage.onUtc_wire (hq.stages s hs)

theorem upholds_execute (hctx : ctx.Settled I P) :
    (execute ctx).Upholds (Beside (Fit I) P) fun ds => ∀ d ∈ ds, (Value.dict d).Settled I := by
  refine upholds_requireExecutor.bind fun _ _ => (upholds_announce hctx _).bind fun _ _ => ?_
  refine upholds_current.bind fun q hq => ?_
  have hwire : (Operation.aggregate q.wire).OnUtc I := onUtc_wire hq
  exact (upholds_outside (hctx.request _ hwire)).mono fun ds hds => List.forall_mem_map.1 hds

/-! ## What becomes of documents -/

theorem settled_of_mapM {f : Value → Except Error Value} {vs ws : List Value}
    (hf : Transform.Keeps I f) (hvs : ∀ v ∈ vs, v.Settled I) (h : vs.mapM f = .ok ws) : ∀ w ∈ ws, w.Settled I := by
  intro w hw
  obtain ⟨v, hv, hvw⟩ := exists_of_mem_mapM h hw
  exact hf v w (hvs v hv) hvw

theorem settled_of_transformField {landing : Value} {t : Transform} {d' : Document}
    (ht : Transform.Keeps I t) (hd : d.All .records (Moment.ShowsUtc I))
    (h : transformField d landing t = .ok d') : d'.All .records (Moment.ShowsUtc I) := by
  unfold transformField at h
  split at h
  · rename_i items hfound
    obtain ⟨ws, hws, h⟩ := bind_eq_ok.1 h
    cases h
    exact hd.put (Value.all_list.2 (settled_of_mapM ht (Value.all_list.1 (hd.get? hfound)) hws)) _
  · cases h
    exact hd
  · cases h
    exact hd
  · rename_i v _ _ hfound
    obtain ⟨w, hw, h⟩ := bind_eq_ok.1 h
    cases h
    exact hd.put (ht v w (hd.get? hfound) hw) _

theorem settled_of_transformed {transforms : List (Value × Transform)} {d' : Document}
    (ht : ∀ e ∈ transforms, Transform.Keeps I e.2) (hd : d.All .records (Moment.ShowsUtc I))
    (h : transformed d transforms = .ok d') : d'.All .records (Moment.ShowsUtc I) := by
  induction transforms generalizing d with
  | nil =>
    obtain rfl := foldlM_nil_eq_ok.1 h
    exact hd
  | cons e rest ih =>
    obtain ⟨d₁, hfirst, h⟩ := foldlM_cons_eq_ok.1 h
    obtain ⟨he, hrest⟩ := List.forall_mem_cons.1 ht
    exact ih hrest (settled_of_transformField he hd hfirst) h

theorem settled_of_standardMap {source : Source} (hd : d.All .records (Moment.ShowsUtc I))
    (h : standardMap source d = .ok v) : v.Settled I := by
  unfold standardMap at h
  split at h
  · obtain ⟨r, hr, rfl⟩ := map_eq_ok.1 h
    exact Record.all_toValue (Record.all_of_build (Value.all_dict.2 hd) hr)
  · cases h
    exact Value.all_dict.2 hd

/-- What a fit query gives for settled documents. -/
theorem settled_of_results {q : Query} {map : Option Transform} {ds : List Document}
    {vs : List Value} (hq : q.Fit I) (hmap : ∀ f ∈ map, Transform.Keeps I f)
    (hds : ∀ d ∈ ds, (Value.dict d).Settled I) (h : results q map ds = .ok vs) :
    ∀ v ∈ vs, v.Settled I := by
  obtain ⟨ds', hds', h⟩ := bind_eq_ok.1 h
  intro v hv
  obtain ⟨d', hd', hv⟩ := exists_of_mem_mapM h hv
  obtain ⟨d, hd, htransformed⟩ := exists_of_mem_mapM hds' hd'
  have hall := settled_of_transformed hq.transforms (Value.all_dict.1 (hds d hd)) htransformed
  split at hv
  · exact hmap _ rfl _ _ (Value.all_dict.2 hall) hv
  · exact settled_of_standardMap hall hv

theorem upholds_fetch (hctx : ctx.Settled I P) (map : Option Transform) :
    (fetch ctx map).Upholds (Beside (Fit I) P) fun vs =>
      (∀ f ∈ map, Transform.Keeps I f) → ∀ v ∈ vs, v.Settled I :=
  (upholds_execute hctx).bind fun _ hds => upholds_current.bind fun _ hq =>
    upholds_check.mono fun _ hvs hmap => settled_of_results hq hmap hds hvs

/-! ## Helpers -/

theorem fit_limitOne : limitOne.Fit I :=
  Value.all_int 1

theorem upholds_first (hctx : ctx.Settled I P) (map : Option Transform) :
    (first ctx map).Upholds (Beside (Fit I) P) fun _ => True :=
  (upholds_refine fit_limitOne).bind fun _ _ => (upholds_fetch hctx map).bind fun _ _ =>
    .pure trivial

theorem upholds_last (hctx : ctx.Settled I P) {filters : Value} (hfilters : filters.Within I) :
    (last ctx filters).Upholds (Beside (Fit I) P) fun _ => True := by
  have hclause : (Refinement.clause [filters]).Fit I :=
    ⟨List.forall_mem_singleton.2 hfilters, List.forall_mem_nil _⟩
  have hsort : (Refinement.sort (.text "id") (.text "desc")).Fit I :=
    ⟨List.forall_mem_nil _, List.forall_mem_nil _⟩
  refine .ite_bind (upholds_refine hclause) (fun _ => rfl) ?_
  exact (upholds_refine hsort).bind fun _ _ => (upholds_refine fit_limitOne).bind fun _ _ =>
    (upholds_fetch hctx none).bind fun _ _ => .pure trivial

theorem onUtc_of_bound {column e : Value} (he : e.OnUtc I)
    (h : Expression.bound column e = .ok w) : w.OnUtc I := by
  unfold Expression.bound at h
  split at h
  · obtain ⟨r, -, h⟩ := bind_eq_ok.1 h
    cases h
    exact Value.all_dict.2 (Document.all_cons.2 ⟨he, Document.all_nil⟩)
  · cases h
    exact he

theorem fit_groupAll {name : String} {e : Value} (he : e.OnUtc I) : (groupAll name e).Fit I :=
  ⟨Value.all_null, Value.all_single.2 he⟩

theorem upholds_count (hctx : ctx.Settled I P) :
    (count ctx).Upholds (Beside (Fit I) P) fun _ => True := by
  refine upholds_check.bind fun e he => ?_
  have hsum : e.OnUtc I := onUtc_of_bound (Value.all_single.2 (Value.all_int 1)) he
  exact (upholds_refine (fit_groupAll hsum)).bind fun _ _ => (upholds_execute hctx).bind fun _ _ =>
    upholds_check.mono fun _ _ => trivial

/-! ## Pages -/

theorem onUtc_of_numeric? {n : Value.Numeric} (h : v.numeric? = some n) : v.OnUtc I := by
  cases v <;> first | exact Value.all_of_moments rfl | cases h

/-- Only a number can be compared with another one. -/
theorem exists_of_atLeastOne {b : Bool} (h : atLeastOne v = .ok b) : ∃ n, v.numeric? = some n := by
  obtain ⟨below, hless, -⟩ := bind_eq_ok.1 h
  unfold Value.less at hless
  split at hless
  · rename_i hone
    cases hone
  · split at hless
    iterate 4
      · rename_i hnumeric _
        exact ⟨_, hnumeric⟩
    · cases hless

theorem exists_of_requireBounds {page limit : Value} (h : requireBounds page limit = .ok ()) :
    (∃ n, page.numeric? = some n) ∧ ∃ n, limit.numeric? = some n := by
  obtain ⟨b, hpage, h⟩ := bind_eq_ok.1 h
  refine ⟨exists_of_atLeastOne hpage, ?_⟩
  simp only at h
  split at h
  · obtain ⟨fits, hlimit, -⟩ := bind_eq_ok.1 h
    exact exists_of_atLeastOne hlimit
  · cases h

theorem exists_of_arithmetic {onInt : Int → Int → Int} {onFloat : Float → Float → Float}
    {a b : Value.Numeric} (h : Value.arithmetic onInt onFloat a b = .ok w) :
    ∃ n, w.numeric? = some n := by
  unfold Value.arithmetic at h
  split at h
  · cases h
    exact ⟨_, rfl⟩
  · obtain ⟨x, -, h⟩ := bind_eq_ok.1 h
    obtain ⟨y, -, h⟩ := bind_eq_ok.1 h
    cases h
    exact ⟨_, rfl⟩

/-- The number of documents before a page is a number. -/
theorem exists_of_start {page limit : Value} (hpage : ∃ n, page.numeric? = some n)
    (hlimit : ∃ n, limit.numeric? = some n)
    (h : (do (← page.sub (.int 1)).mul limit) = .ok w) : ∃ n, w.numeric? = some n := by
  obtain ⟨before, hbefore, h⟩ := bind_eq_ok.1 h
  obtain ⟨m, hm⟩ := hpage
  obtain ⟨n, hn⟩ := hlimit
  unfold Value.sub at hbefore
  rw [hm] at hbefore
  obtain ⟨k, hk⟩ := exists_of_arithmetic hbefore
  unfold Value.mul at h
  rw [hk, hn] at h
  exact exists_of_arithmetic h

theorem upholds_restore {stages : List Stage} (hstages : Refinement.AllOnUtc I stages) :
    (restore stages : Run σ Unit).Upholds (Beside (Fit I) P) fun _ => True :=
  .modify fun _ ht => ⟨⟨hstages, ht.1.transforms⟩, ht.2⟩

theorem upholds_paginate (hctx : ctx.Settled I P) (page limit : Value) (map : Option Transform) :
    (paginate ctx page limit map).Upholds (Beside (Fit I) P) fun _ => True := by
  refine upholds_current.bind fun q _ => ?_
  refine upholds_check.bind fun _ hbounds => ?_
  obtain ⟨hpage, hlimit⟩ := exists_of_requireBounds hbounds
  refine upholds_current.bind fun q' hq' => ?_
  refine upholds_check.bind fun start hstart => ?_
  obtain ⟨_, hskip⟩ := exists_of_start hpage hlimit hstart
  obtain ⟨_, hlimited⟩ := hlimit
  have hskip : (Refinement.skip start).Fit I := onUtc_of_numeric? hskip
  have hlimit : (Refinement.limit (pageLimit ctx q limit)).Fit I := onUtc_of_numeric? hlimited
  exact (upholds_refine hskip).bind fun _ _ => (upholds_refine hlimit).bind fun _ _ =>
    (upholds_fetch hctx map).bind fun _ _ => (upholds_restore hq'.stages).bind fun _ _ =>
    (upholds_count hctx).bind fun _ _ => upholds_check.bind fun _ _ => .pure trivial

theorem upholds_onClone {act : Run σ α} {Q : α → Prop} (h : act.Upholds (Beside A P) Q) :
    (onClone act).Upholds (Beside A P) Q :=
  fun t ht => ⟨⟨ht.1, (h t ht).1.2⟩, (h t ht).2⟩

/-- A walk upholds what each of its pages does. -/
theorem upholds_walk {visit : Visit σ} {limit : Value} {map : Option Transform}
    (hpage : ∀ page, (paginate ctx page limit map).Upholds (Beside A P) fun _ => True)
    (hvisit : ∀ vs info, (visit vs info).Preserves P) (left : Nat) (page : Int) :
    (walk ctx limit visit map left page).Upholds (Beside A P) fun _ => True := by
  induction left generalizing page with
  | zero => exact .pure trivial
  | succ left ih =>
    refine (upholds_onClone (hpage (.int page))).bind fun p _ => ?_
    refine (upholds_outside (hvisit p.documents p.info).upholds).bind fun answer _ => ?_
    split
    · exact .pure trivial
    · exact ih _

theorem upholds_pages {visit : Visit σ} {limit : Value} {map : Option Transform}
    (hcount : (count ctx).Upholds (Beside A P) fun _ => True)
    (hpage : ∀ page, (paginate ctx page limit map).Upholds (Beside A P) fun _ => True)
    (hvisit : ∀ vs info, (visit vs info).Preserves P) :
    (chunk ctx limit visit map).Upholds (Beside A P) fun _ => True := by
  refine upholds_check.bind fun fits _ => ?_
  refine .ite_bind (.throw (Q := fun _ => True) _) (fun _ => rfl) ?_
  exact (upholds_onClone hcount).bind fun _ _ => upholds_check.bind fun _ _ =>
    upholds_walk hpage hvisit _ _

theorem upholds_chunk (hctx : ctx.Settled I P) {visit : Visit σ}
    (hvisit : ∀ vs info, (visit vs info).Preserves P) (limit : Value) (map : Option Transform) :
    (chunk ctx limit visit map).Upholds (Beside (Fit I) P) fun _ => True :=
  upholds_pages (upholds_count hctx) (fun page => upholds_paginate hctx page limit map) hvisit

/-! ## Bulk writes -/

theorem onUtc_of_split {filter filter' : Document} {stages : List Stage} {others : List Value}
    (hfilter : filter.All .parts (Moment.ShowsUtc I)) (hstages : Refinement.AllOnUtc I stages)
    (h : split filter stages = .ok (filter', others)) :
    filter'.All .parts (Moment.ShowsUtc I) ∧ ∀ v ∈ others, v.OnUtc I := by
  induction stages generalizing filter others with
  | nil =>
    cases h
    exact ⟨hfilter, List.forall_mem_nil _⟩
  | cons s rest ih =>
    obtain ⟨hs, hrest⟩ := List.forall_mem_cons.1 hstages
    unfold split at h
    split at h
    · rename_i hname
      obtain ⟨joined, hjoined, h⟩ := bind_eq_ok.1 h
      obtain ⟨d, hd, hjoined⟩ := bind_eq_ok.1 hjoined
      cases hjoined
      exact ih (hfilter.update (hs.filter (beq_iff_eq.1 hname) d hd)) hrest h
    · obtain ⟨⟨filter₁, others₁⟩, hsplit, h⟩ := bind_eq_ok.1 h
      cases h
      obtain ⟨hfilter₁, hothers₁⟩ := ih hfilter hrest hsplit
      exact ⟨hfilter₁, List.forall_mem_cons.2 ⟨Stage.onUtc_wire hs, hothers₁⟩⟩

theorem upholds_updateMany (hctx : ctx.Settled I P) {filter : Document} {pipeline : List Value}
    (hfilter : filter.All .parts (Moment.ShowsUtc I)) (hpipeline : ∀ v ∈ pipeline, v.OnUtc I)
    (task : String) :
    (updateMany ctx filter pipeline task).Upholds (Beside (Fit I) P) fun _ => True := by
  have hop : (Operation.updateMany filter (.list pipeline)).OnUtc I :=
    List.forall_mem_cons.2 ⟨Value.all_dict.2 hfilter,
      List.forall_mem_singleton.2 (Value.all_list.2 hpipeline)⟩
  refine upholds_current.bind fun q _ => .tryCatch ?_ fun e => ?_
  · exact (upholds_announce hctx _).bind fun _ _ =>
      (upholds_outside (hctx.request _ hop)).mono fun _ _ => trivial
  · exact (upholds_outside (hctx.report _ _ _ _)).bind fun _ _ => .throw _

/-- What is done to the stages of a query in one filter and the others. -/
theorem upholds_split_bind {next : Document × List Value → Run σ α} {Q : α → Prop}
    (hnext : ∀ filter others, filter.All .parts (Moment.ShowsUtc I) → (∀ v ∈ others, v.OnUtc I) →
      (next (filter, others)).Upholds (Beside (Fit I) P) Q) :
    (do requireExecutor; next (← check (split [] (← current).stages))).Upholds
      (Beside (Fit I) P) Q :=
  upholds_requireExecutor.bind fun _ _ => upholds_current.bind fun _ hq =>
    upholds_check.bind fun parts hparts => by
      obtain ⟨hfilter, hothers⟩ := onUtc_of_split Document.all_nil hq.stages hparts
      exact hnext parts.1 parts.2 hfilter hothers

theorem upholds_update (hctx : ctx.Settled I P) {changes : Value} (hchanges : changes.Within I) :
    (update ctx changes).Upholds (Beside (Fit I) P) fun _ => True := by
  refine upholds_split_bind fun filter others hfilter hothers => ?_
  refine upholds_check.bind fun changes' hchanges' => ?_
  have hset := Value.onUtc_of_normalizeDates hchanges hchanges'
  exact upholds_updateMany hctx hfilter (List.forall_mem_append.2
    ⟨hothers, List.forall_mem_singleton.2 (Value.all_single.2 hset)⟩) _

theorem upholds_unset (hctx : ctx.Settled I P) {columns : List Value}
    (hcolumns : ∀ v ∈ columns, v.OnUtc I) :
    (unset ctx columns).Upholds (Beside (Fit I) P) fun _ => True := by
  refine upholds_split_bind fun filter others hfilter hothers => ?_
  exact upholds_updateMany hctx hfilter (List.forall_mem_append.2
    ⟨hothers, List.forall_mem_singleton.2 (Value.all_single.2 (Value.all_list.2 hcolumns))⟩) _

theorem upholds_explain (hctx : ctx.Settled I P) :
    (explain ctx).Upholds (Beside (Fit I) P) fun _ => True := by
  refine upholds_requireExecutor.bind fun _ _ => upholds_current.bind fun q hq => ?_
  have hop : (Operation.explain q.wire).OnUtc I := onUtc_wire hq
  exact (upholds_outside (hctx.request _ hop)).mono fun _ _ => trivial

/-! ## Columns -/

theorem fit_selectOne (column : Value) : (Refinement.select [.list [column]]).Fit I :=
  fun _ hd => nomatch hd

theorem upholds_pluck (hctx : ctx.Settled I P) (column : Value) :
    (pluck ctx column).Upholds (Beside (Fit I) P) fun vs => ∀ v ∈ vs, v.Settled I := by
  refine (upholds_refine (fit_selectOne _)).bind fun _ _ => ?_
  refine (upholds_fetch hctx _).mono fun vs hvs => hvs ?_
  rintro f ⟨⟩ v w hv hw
  obtain ⟨path, -, hw⟩ := bind_eq_ok.1 hw
  exact Path.all_of_getD hv Value.all_null hw

theorem upholds_deleteMany (hctx : ctx.Settled I P) :
    (deleteMany ctx).Upholds (Beside (Fit I) P) fun _ => True := by
  refine upholds_requireExecutor.bind fun _ _ => ?_
  refine (upholds_refine (fit_selectOne _)).bind fun _ _ => ?_
  refine (upholds_pluck hctx _).bind fun ids hids => (upholds_announce hctx _).bind fun _ _ => ?_
  refine upholds_current.bind fun q _ => ?_
  have hin : (Value.single "$in" (.list ids)).OnUtc I :=
    Value.all_single.2 (Value.all_list.2 fun v hv => (hids v hv).onUtc)
  have hop : (Operation.deleteMany [(.text "_id", .single "$in" (.list ids))]).OnUtc I :=
    List.forall_mem_singleton.2
      (Value.all_dict.2 (Document.all_cons.2 ⟨hin, Document.all_nil⟩))
  exact (upholds_outside (hctx.request _ hop)).mono fun _ _ => trivial

theorem upholds_firstDocument (hctx : ctx.Settled I P) :
    (firstDocument ctx).Upholds (Beside (Fit I) P) fun _ => True :=
  (upholds_refine fit_limitOne).bind fun _ _ => (upholds_execute hctx).bind fun _ _ => .pure trivial

theorem upholds_gathered (hctx : ctx.Settled I P) {expression : Except Error Value}
    (h : ∀ e, expression = .ok e → e.OnUtc I) :
    (gathered ctx expression).Upholds (Beside (Fit I) P) fun _ => True := by
  refine upholds_check.bind fun e he => (upholds_refine (fit_groupAll (h e he))).bind fun _ _ => ?_
  refine (upholds_refine (fit_selectOne _)).bind fun _ _ => ?_
  refine (upholds_firstDocument hctx).bind fun d _ => ?_
  split
  · exact .pure trivial
  · exact .pure trivial
  · exact upholds_check.mono fun _ _ => trivial

theorem upholds_accumulate (hctx : ctx.Settled I P) {expression : Except Error Value}
    (name : String) (h : ∀ e, expression = .ok e → e.OnUtc I) :
    (accumulate ctx name expression).Upholds (Beside (Fit I) P) fun _ => True := by
  refine upholds_check.bind fun e he => (upholds_refine (fit_groupAll (h e he))).bind fun _ _ => ?_
  refine (upholds_firstDocument hctx).bind fun d _ => ?_
  split <;> exact .pure trivial

theorem onUtc_of_push {column : Value} (hcolumn : column.OnUtc I)
    (h : Expression.push column = .ok w) : w.OnUtc I := by
  unfold Expression.push at h
  split at h
  · exact Refinement.onUtc_of_onColumn h
  · cases h
    exact Value.all_single.2 hcolumn

end Query

end DocumentMapper
