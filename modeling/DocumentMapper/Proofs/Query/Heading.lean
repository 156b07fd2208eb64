import DocumentMapper.Proofs.Query.Drafts
import DocumentMapper.Proofs.Query.Handing

/-!
# The filter that a query begins with

A query of a model begins with the filter that its finder has prepared, and whatever runs it puts
its stages behind that filter. What is kept here is a property of the first filter, whatever the
property is, so that it holds of everything that a page or a walk through all pages asks for.
-/

namespace DocumentMapper

open DocumentMapper.Action

/-- The filter of a stage as it is sent, the empty one for a stage that is no filter. -/
def Value.sought : Value → Document
  | .dict [(.text "$match", .dict f)] => f
  | _ => []

namespace Operation

/-- The filter that a pipeline begins with. -/
def heading : List Value → Document
  | [] => []
  | stage :: _ => stage.sought

/-- What a request for all documents of a kind asks for: its filter, or the one that its pipeline
begins with. -/
def sought? : Operation → Option Document
  | findOne f | findMany f _ _ | deleteMany f => some f
  | count f | distinct _ f => some (f.getD [])
  | aggregate pipeline | explain pipeline => some (heading pipeline)
  | _ => none

theorem heading_append {more : List Value} (h : heading more = []) (pipeline : List Value) :
    heading (pipeline ++ more) = heading pipeline := by
  cases pipeline with
  | nil => exact h
  | cons stage rest => rfl

end Operation

/-- A query that begins with a filter of some kind. -/
def Query.Headed (K : Document → Prop) (q : Query) : Prop :=
  K (Operation.heading q.wire)

variable {σ : Type} {K : Document → Prop} {P : σ → Prop} {ctx : Context σ}

/-! ## Surroundings -/

/-- A listener that leaves a filter of that kind one of that kind. -/
structure Listener.Heeds (K : Document → Prop) (P : σ → Prop) (l : Listener σ) : Prop where
  onSearch : ∀ model, (l.onSearch model).Upholds (Beside K P) fun _ => True
  onQuery : l.onQuery.Upholds (Beside (Query.Headed K) P) fun _ => True

/-- Surroundings in which a property of the state is kept by requests that ask for a filter of some
kind, and by listeners, which leave such filters as they must be. No other request has to keep
it. -/
structure Context.Heeds (K : Document → Prop) (P : σ → Prop) (ctx : Context σ) : Prop where
  execute : ∀ (r : Request) (f : Document), r.operation.sought? = some f → K f →
    (ctx.execute r).Preserves P
  listeners : ∀ id event, (ctx.listeners id event).Upholds P fun ls => ∀ l ∈ ls, l.Heeds K P

namespace Context.Heeds

theorem request (hctx : ctx.Heeds K P) (collection : String) {op : Operation} {f : Document}
    (hop : op.sought? = some f) (hf : K f) :
    (ctx.request collection op).Upholds P fun _ => True :=
  (hctx.execute ⟨collection, op⟩ f hop hf).upholds

theorem tell (hctx : ctx.Heeds K P) {α : Type} {A : α → Prop} {registries : List RegistryId}
    {event : Event} {call : Listener σ → Action (α × σ) Unit}
    (hcall : ∀ l : Listener σ, l.Heeds K P → (call l).Upholds (Beside A P) fun _ => True) :
    (ctx.tell registries event call).Upholds (Beside A P) fun _ => True :=
  upholds_tell hctx.listeners hcall

end Context.Heeds

/-! ## Running a query -/

/-- A refinement that puts no filter in front. -/
structure Refinement.Trails (r : Refinement) : Prop where
  ne_reset : r ≠ .reset
  draft : ∀ stages, Operation.heading ((r.draft stages).placed.map Stage.wire) = []

namespace Query.Headed

variable {r : Refinement}

theorem trails_skip (count : Value) : (Refinement.skip count).Trails :=
  ⟨nofun, fun _ => rfl⟩

theorem trails_limit (count : Value) : (Refinement.limit count).Trails :=
  ⟨nofun, fun _ => rfl⟩

theorem trails_groupAll (name : String) (e : Value) : (groupAll name e).Trails :=
  ⟨nofun, fun _ => rfl⟩

protected theorem refine (hr : r.Trails) :
    (refine r : Run σ Unit).Upholds (Beside (Headed K) P) fun _ => True := by
  refine .first fun q hq => ⟨?_, fun _ _ => trivial⟩
  obtain ⟨-, hstages⟩ := Refinement.run_apply hr.ne_reset q.stages
  have hwire : ((onStages r.apply).run q).2.wire =
      q.wire ++ (r.draft q.stages).placed.map Stage.wire := by
    rw [wire, wire, ← List.map_append, ← hstages]
    rfl
  unfold Headed
  rw [hwire, Operation.heading_append (hr.draft q.stages)]
  exact hq

protected theorem execute (hctx : ctx.Heeds K P) :
    (execute ctx).Upholds (Beside (Headed K) P) fun _ => True := by
  have hannounce : (announce ctx .fetching).Upholds (Beside (Headed K) P) fun _ => True :=
    upholds_current.bind fun _ _ => hctx.tell fun _ hl => hl.onQuery
  refine upholds_requireExecutor.bind fun _ _ => hannounce.bind fun _ _ => ?_
  exact upholds_current.bind fun q hq => upholds_outside (hctx.request q.collection rfl hq)

protected theorem fetch (hctx : ctx.Heeds K P) (map : Option Transform) :
    (fetch ctx map).Upholds (Beside (Headed K) P) fun _ => True :=
  (Headed.execute hctx).bind fun _ _ => upholds_current.bind fun _ _ =>
    upholds_check.mono fun _ _ => trivial

protected theorem count (hctx : ctx.Heeds K P) :
    (count ctx).Upholds (Beside (Headed K) P) fun _ => True :=
  upholds_check.bind fun _ _ => (Headed.refine (trails_groupAll _ _)).bind fun _ _ =>
    (Headed.execute hctx).bind fun _ _ => upholds_check.mono fun _ _ => trivial

/-- A page puts its window behind the first filter and takes it out again. -/
protected theorem paginate (hctx : ctx.Heeds K P) (page limit : Value) (map : Option Transform) :
    (paginate ctx page limit map).Upholds (Beside (Headed K) P) fun _ => True := by
  refine upholds_current.bind fun _ _ => upholds_check.bind fun _ _ => ?_
  refine upholds_current.bind fun q hq => upholds_check.bind fun start _ => ?_
  have hrestore : (restore q.stages : Run σ Unit).Upholds (Beside (Headed K) P) fun _ => True :=
    .modify fun _ ht => ⟨hq, ht.2⟩
  exact (Headed.refine (trails_skip _)).bind fun _ _ =>
    (Headed.refine (trails_limit _)).bind fun _ _ => (Headed.fetch hctx map).bind fun _ _ =>
    hrestore.bind fun _ _ => (Headed.count hctx).bind fun _ _ => upholds_check.bind fun _ _ =>
    .pure trivial

protected theorem chunk (hctx : ctx.Heeds K P) {visit : Visit σ}
    (hvisit : ∀ vs info, (visit vs info).Preserves P) (limit : Value) (map : Option Transform) :
    (chunk ctx limit visit map).Upholds (Beside (Headed K) P) fun _ => True :=
  upholds_pages (Headed.count hctx) (fun page => Headed.paginate hctx page limit map) hvisit

end Query.Headed

end DocumentMapper
