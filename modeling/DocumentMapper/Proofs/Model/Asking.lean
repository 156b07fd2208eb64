import DocumentMapper.Proofs.Model.Requests
import DocumentMapper.Proofs.Query.Heading

/-!
# What finders ask for

All finders of a model prepare the filter that they are given in the same way, and ask for nothing
but what was prepared: a search with it, a query that begins with it, or a deletion of what it
selects. So whatever holds of a prepared filter holds of everything that is asked for. What they
give back may be saved afterwards, which is for the saving to answer for.
-/

namespace DocumentMapper

open Outcome DocumentMapper.Action

variable {σ α : Type} {A K : Document → Prop} {P : σ → Prop} {ctx : Context σ}
  {cascade : Cascade σ} {m : Model σ} {filter : Value}

namespace Finder

/-- Filters of a kind are prepared from entries with some property, and remain of that kind when
moments in them are put on a clock of UTC. -/
structure Makes (s : Schema) (A K : Document → Prop) : Prop where
  prepared : ∀ d f, A d → normalized s d = .ok f → K f
  onUtc : ∀ f f', Value.normalizeEntries f = .ok f' → K f → K f'

/-- A filter as a caller gives it, whose entries have a property. -/
def Gives (A : Document → Prop) (filter : Value) : Prop :=
  ∀ d, entries filter = .ok d → A d

theorem gives_on {column v : Value} (h : A [(column, v)]) : Gives A (on column v) := by
  intro d hd
  cases hd
  exact h

/-- Whether a value that says what to delete is a filter, and does not name one record. -/
def isFilter : Value → Bool
  | .objectId _ | .int _ | .bool _ | .text _ => false
  | _ => true

theorem asks_prepare (hctx : ctx.Heeds K P) (hmakes : Makes m.toSchema A K)
    (hfilter : Gives A filter) : (prepare ctx m filter).Upholds P K := by
  have hprepared : ∀ f, (do normalized m.toSchema (← entries filter)) = .ok f → K f := by
    intro f hf
    obtain ⟨d, hd, hf⟩ := bind_eq_ok.1 hf
    exact hmakes.prepared d f (hfilter d hd) hf
  refine (Upholds.ofExcept hprepared).bind fun f hf => ?_
  have htell : (ctx.tell m.registries .fetching fun l => l.onSearch m.name).Upholds
      (Beside K P) fun _ => True :=
    hctx.tell fun l hl => hl.onSearch m.name
  refine (Upholds.alongside hf htell).bind fun r hr => ?_
  exact (Upholds.ofExcept fun _ _ => trivial).bind fun _ _ => .pure hr.1

theorem asks_search (hctx : ctx.Heeds K P) (hmakes : Makes m.toSchema A K)
    (hfilter : Gives A filter) {operation : Document → Operation}
    (hoperation : ∀ f, (operation f).sought? = some f)
    {use : (f : Document) → (operation f).Answer → α} :
    (search ctx m filter operation use).Upholds P fun _ => True :=
  (upholds_requireBound _).bind fun _ _ => (asks_prepare hctx hmakes hfilter).bind fun f hf =>
    (hctx.request _ (hoperation f) hf).bind fun _ _ => .pure trivial

theorem asks_first (hctx : ctx.Heeds K P) (hmakes : Makes m.toSchema A K)
    (hfilter : Gives A filter) : (first ctx m filter).Upholds P fun _ => True :=
  asks_search hctx hmakes hfilter fun _ => rfl

theorem asks_exists (hctx : ctx.Heeds K P) (hmakes : Makes m.toSchema A K)
    (hfilter : Gives A filter) : («exists» ctx m filter).Upholds P fun _ => True :=
  (asks_first hctx hmakes hfilter).map fun _ _ => trivial

theorem asks_find (hctx : ctx.Heeds K P) (hmakes : Makes m.toSchema A K) {id : Value}
    (hid : ∀ v, identity id = .ok v → A [(m.primaryId, v)]) :
    (find ctx m id).Upholds P fun _ => True :=
  (Upholds.ofExcept hid).bind fun _ hv => asks_first hctx hmakes (gives_on hv)

/-! ## Queries of a model -/

theorem preserves_launch {q : Query} {act : Query.Run σ α}
    (h : ∀ s, P s → P (act.run (q, s)).2.2) : (q.launch act).Preserves P := by
  intro s hs
  have hrun := h s hs
  rcases hact : act.run (q, s) with ⟨outcome, q', s'⟩
  rw [hact] at hrun
  have halongside : (Action.alongside q act).run s = (.ok (outcome, q'), s') := by
    simp only [Action.alongside, hact]
  rw [Query.launch, Action.run_bind_ok halongside]
  exact hrun

/-- The prepared filter becomes the first stage of a query that has none. -/
theorem run_refine_filter {f : Document} (q : Query) (hq : q.stages = []) (s : σ) :
    (∃ e q', (Query.refine (.clause [.dict f]) : Query.Run σ Unit).run (q, s) =
      (.error e, q', s)) ∨
    ∃ f', Value.normalizeEntries f = .ok f' ∧
      (Query.refine (.clause [.dict f]) : Query.Run σ Unit).run (q, s) =
        (.ok (), { q with stages := [.filter (.dict f')] }, s) := by
  have hrun : (Query.refine (.clause [.dict f]) : Query.Run σ Unit).run (q, s) =
      let found := (Refinement.addIf (Stage.filter <$> (Value.dict f).normalizeDates)).run q.stages
      (found.1, { q with stages := found.2 }, s) := rfl
  rw [hrun, hq]
  cases hf : Value.normalizeEntries f with
  | error e =>
    have hdates : (Value.dict f).normalizeDates = .error e := by
      rw [Value.normalizeDates, hf]
      rfl
    rw [hdates]
    exact .inl ⟨e, _, rfl⟩
  | ok f' =>
    have hdates : (Value.dict f).normalizeDates = .ok (.dict f') := by
      rw [Value.normalizeDates, hf]
      rfl
    rw [hdates]
    exact .inr ⟨f', rfl, rfl⟩

theorem asks_filtered (hctx : ctx.Heeds K P) (hmakes : Makes m.toSchema A K)
    (hfilter : Gives A filter) {act : Query.Run σ α}
    (hact : act.Upholds (Beside (Query.Headed K) P) fun _ => True) :
    (filtered ctx m filter act).Upholds P fun _ => True := by
  have hquery : (query ctx m).Upholds P fun q => q.stages = [] :=
    (upholds_requireBound _).bind fun _ _ => .pure rfl
  refine hquery.bind fun q hq => (asks_prepare hctx hmakes hfilter).bind fun f hf => ?_
  refine (preserves_launch fun s hs => ?_).upholds
  cases f with
  | nil =>
    have hheaded : q.Headed K := by
      unfold Query.Headed Query.wire
      rw [hq]
      exact hf
    exact (hact (q, s) ⟨hheaded, hs⟩).1.2
  | cons e rest =>
    show P ((Query.refine (.clause [.dict (e :: rest)]) >>= fun _ => act).run (q, s)).2.2
    rcases run_refine_filter (f := e :: rest) q hq s with ⟨e', q', hrun⟩ | ⟨f', hf', hrun⟩
    · rw [Action.run_bind_error hrun]
      exact hs
    · rw [Action.run_bind_ok hrun]
      have hheaded : ({ q with stages := [.filter (.dict f')] } : Query).Headed K :=
        hmakes.onUtc _ f' hf' hf
      exact (hact (_, s) ⟨hheaded, hs⟩).1.2

theorem asks_delete (hctx : ctx.Heeds K P) (hmakes : Makes m.toSchema A K)
    (hkind : isFilter filter = true) (hfilter : Gives A filter) :
    (delete ctx m filter).Upholds P fun _ => True := by
  refine (upholds_requireBound _).bind fun _ _ => ?_
  split
  iterate 4 cases hkind
  exact (asks_prepare hctx hmakes hfilter).bind fun f hf => hctx.request _ rfl hf

end Finder

namespace Store

/-- Saving a record keeps a property of the state. -/
def Saves (P : σ → Prop) (cascade : Cascade σ) : Prop :=
  ∀ o, (cascade.save o).Preserves fun t => P t.2

theorem asks_saved (hsaves : Saves P cascade) (r : Record) (changes : Value) :
    (saved cascade r changes).Upholds P fun _ => True := by
  have hsave : (cascade.save { SaveOptions.standard with changes }).Upholds
      (Beside (fun _ => True) P) fun _ => True :=
    fun t ht => ⟨⟨trivial, hsaves _ t ht.2⟩, fun _ _ => trivial⟩
  refine (Upholds.alongside trivial hsave).bind fun found _ => ?_
  exact (Upholds.ofExcept fun _ _ => trivial).bind fun _ _ => .pure trivial

theorem asks_create (hsaves : Saves P cascade) (v : Value) :
    (create cascade m v).Upholds P fun _ => True :=
  (Upholds.ofExcept fun _ _ => trivial).bind fun r _ => asks_saved hsaves r .null

theorem asks_update (hctx : ctx.Heeds K P) (hsaves : Saves P cascade)
    (hmakes : Finder.Makes m.toSchema A K) {id : Value}
    (hid : ∀ v, Finder.identity id = .ok v → A [(m.primaryId, v)]) (changes : Value) :
    (update ctx cascade m id changes).Upholds P fun _ => True := by
  refine (Finder.asks_find hctx hmakes hid).bind fun found _ => ?_
  cases found with
  | none => exact .pure trivial
  | some r => exact (asks_saved hsaves r changes).bind fun _ _ => .pure trivial

theorem asks_findOrCreate (hctx : ctx.Heeds K P) (hsaves : Saves P cascade)
    (hmakes : Finder.Makes m.toSchema A K) (hfilter : Finder.Gives A filter) (v : Value) :
    (findOrCreate ctx cascade m filter v).Upholds P fun _ => True := by
  refine (Finder.asks_first hctx hmakes hfilter).bind fun found _ => ?_
  cases found with
  | none => exact asks_create hsaves v
  | some r => exact .pure trivial

theorem asks_updateOrCreate (hctx : ctx.Heeds K P) (hsaves : Saves P cascade)
    (hmakes : Finder.Makes m.toSchema A K) (hfilter : Finder.Gives A filter) (v : Value) :
    (updateOrCreate ctx cascade m filter v).Upholds P fun _ => True := by
  refine (Finder.asks_first hctx hmakes hfilter).bind fun found _ => ?_
  cases found with
  | none => exact asks_create hsaves v
  | some r => exact asks_saved hsaves r v

namespace Method

/-- A method that looks for records by a filter, or by an identity or a column, which make one. What
the caller does with a page keeps a property of the state. -/
def Asks (s : Schema) (A : Document → Prop) (P : σ → Prop) : Method σ → Prop
  | first filter | last filter | latest filter | list filter | count filter | «exists» filter
  | distinct _ filter | paginate filter _ _ | findOrCreate filter _ | updateOrCreate filter _ =>
    Finder.Gives A filter
  | find id | update id _ => ∀ v, Finder.identity id = .ok v → A [(s.primaryId, v)]
  | findBy column v => A [(column, v)]
  | chunk _ visit filter => Finder.Gives A filter ∧ ∀ vs info, (visit vs info).Preserves P
  | delete filter => Finder.isFilter filter = true ∧ Finder.Gives A filter
  | create _ | save _ _ | destroy _ | nextId | lastId => False

/-- Besides saving, the methods that look for records ask for nothing but filters that were prepared
from what the caller gave. -/
theorem preserves_of_asks (hctx : ctx.Heeds K P) (hsaves : Saves P cascade)
    (hmakes : Finder.Makes m.toSchema A K) {method : Method σ}
    (hmethod : method.Asks m.toSchema A P) : (method.act ctx cascade m).Preserves P := by
  refine Upholds.preserves (Q := fun _ => True) ?_
  cases method with
  | create | save | destroy | nextId | lastId => exact hmethod.elim
  | update id changes => exact upholds_discard (asks_update hctx hsaves hmakes hmethod changes)
  | findOrCreate filter v =>
    exact upholds_discard (asks_findOrCreate hctx hsaves hmakes hmethod v)
  | updateOrCreate filter v =>
    exact upholds_discard (asks_updateOrCreate hctx hsaves hmakes hmethod v)
  | find id => exact upholds_discard (Finder.asks_find hctx hmakes hmethod)
  | findBy column v =>
    exact upholds_discard (Finder.asks_first hctx hmakes (Finder.gives_on hmethod))
  | «exists» filter => exact upholds_discard (Finder.asks_exists hctx hmakes hmethod)
  | first | last | latest | list | count | distinct =>
    exact upholds_discard (Finder.asks_search hctx hmakes hmethod fun _ => rfl)
  | paginate filter page limit =>
    have hpage := Query.Headed.paginate hctx page limit none
    exact upholds_discard (Finder.asks_filtered hctx hmakes hmethod hpage)
  | chunk limit visit filter =>
    have hpages := Query.Headed.chunk hctx hmethod.2 limit none
    exact Finder.asks_filtered hctx hmakes hmethod.1 hpages
  | delete filter => exact upholds_discard (Finder.asks_delete hctx hmakes hmethod.1 hmethod.2)

end Method

end Store

end DocumentMapper
