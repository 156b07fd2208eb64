import DocumentMapper.Proofs.Document.Update
import DocumentMapper.Proofs.Model.Sample
import DocumentMapper.Proofs.Model.Saving
import DocumentMapper.Proofs.Outcome
import DocumentMapper.Proofs.Procedure
import DocumentMapper.Query.Execution

/-!
# What a bulk update selects

An update of every matching document takes the filters out of the pipeline and hands them over as
one dictionary, written one over the other, with the other stages and one that does the update.
Such a dictionary is read as the conjunction of its entries. It is the conjunction of all filters
exactly if filters that have something to say about the same key say the same of it.
-/

namespace DocumentMapper

namespace Query

/-- The filters among stages. -/
def filters (stages : List Stage) : Except Error (List Document) :=
  (stages.filter (·.name == "match")).mapM fun s => s.payload.toDocument

/-- The other stages, as they are sent. -/
def others (stages : List Stage) : List Value :=
  (stages.filter (·.name != "match")).map Stage.wire

/-- A document is selected by a filter whose entries have a meaning. -/
def Selects (meaning : Value → Value → Document → Prop) (filter doc : Document) : Prop :=
  ∀ e ∈ filter, meaning e.1 e.2 doc

theorem filters_cons_of_match {s : Stage} (h : s.name = "match") (stages : List Stage) :
    filters (s :: stages) = (do
      let d ← s.payload.toDocument
      let ds ← filters stages
      return d :: ds) := by
  simp [filters, h]

theorem filters_cons_of_ne {s : Stage} (h : s.name ≠ "match") (stages : List Stage) :
    filters (s :: stages) = filters stages := by
  simp [filters, h]

/-- The filters of a pipeline are written one over the other, and the other stages keep their
order. -/
theorem split_eq (filter : Document) (stages : List Stage) :
    split filter stages = (do
      let ds ← filters stages
      return (filter.update ds.flatten, others stages)) := by
  induction stages generalizing filter with
  | nil => rfl
  | cons s stages ih =>
    unfold split
    by_cases hmatch : s.name = "match"
    · rw [if_pos (beq_iff_eq.2 hmatch), filters_cons_of_match hmatch]
      have hothers : others (s :: stages) = others stages := by simp [others, hmatch]
      simp only [conjoin, ih, hothers, bind_assoc, pure_bind, List.flatten_cons]
      refine bind_congr fun d => ?_
      show (do let ds ← filters stages; return ((filter.update d).update ds.flatten, _)) = _
      simp only [Document.update_append]
    · rw [if_neg (by simpa using hmatch), filters_cons_of_ne hmatch, ih, bind_assoc]
      refine bind_congr fun ds => ?_
      simp only [others, List.filter_cons, bne_iff_ne, ne_eq, hmatch, not_false_eq_true, if_true,
        List.map_cons]
      rfl

/-! ## The request -/

variable {σ : Type} {ctx : Context σ} {q q' : Query} {s s' : σ} {n : Int}

/-- A query of a source with an executor that sends an update does so after the listeners have heard
of it, and once. -/
def Sends (ctx : Context σ) (q q' : Query) (s s' : σ) (n : Int) (filter : Document)
    (pipeline : List Value) : Prop :=
  ∃ s₁, (announce ctx .updating).run (q, s) = (.ok (), q', s₁) ∧
    (ctx.request q.collection (.updateMany filter (.list pipeline))).run s₁ = (.ok n, s')

theorem run_updateMany_eq_ok {filter : Document} {pipeline : List Value} (task : String) :
    (updateMany ctx filter pipeline task).run (q, s) = (.ok n, q', s') ↔
      Sends ctx q q' s s' n filter pipeline := by
  have hrun : (updateMany ctx filter pipeline task).run (q, s) = (.ok n, q', s') ↔
      (do
        announce ctx .updating
        outside (ctx.request q.collection (.updateMany filter (.list pipeline))) : Run σ Int).run
          (q, s) = (.ok n, q', s') :=
    Action.run_tryCatch_throw_eq_ok
  rw [hrun, Action.run_bind_eq_ok]
  constructor
  · rintro ⟨⟨⟩, ⟨q₁, s₁⟩, hannounce, hrequest⟩
    obtain ⟨hsent, rfl⟩ := Action.run_second_eq_iff.1 hrequest
    exact ⟨s₁, hannounce, hsent⟩
  · rintro ⟨s₁, hannounce, hrequest⟩
    exact ⟨(), (q', s₁), hannounce, Action.run_second_eq_iff.2 ⟨hrequest, rfl⟩⟩

/-- A query with an executor goes on with its filters in one and its other stages. -/
theorem run_split_bind (hq : q.source ≠ .detached) {ds : List Document}
    (hds : filters q.stages = .ok ds) {α : Type} (next : Document × List Value → Run σ α) (s : σ) :
    (do requireExecutor; next (← check (split [] (← current).stages))).run (q, s) =
      (next (.ofEntries ds.flatten, others q.stages)).run (q, s) := by
  have hexecutor : (requireExecutor : Run σ Unit).run (q, s) = (.ok (), q, s) := by
    unfold requireExecutor
    rw [Action.run_bind_ok (show current.run (q, s) = (.ok q, q, s) from rfl)]
    split
    · contradiction
    · rfl
  have hsplit : split [] q.stages = .ok (.ofEntries ds.flatten, others q.stages) := by
    rw [split_eq, hds]
    rfl
  rw [Action.run_bind_ok hexecutor,
    Action.run_bind_ok (show current.run (q, s) = (.ok q, q, s) from rfl), hsplit]
  rfl

/-- What an update hands over to the database. -/
theorem run_update_eq_ok (hq : q.source ≠ .detached) {ds : List Document}
    (hds : filters q.stages = .ok ds) {d d' : Value} (hd : d.normalizeDates = .ok d') :
    (update ctx d).run (q, s) = (.ok n, q', s') ↔
      Sends ctx q q' s s' n (.ofEntries ds.flatten)
        (others q.stages ++ [.single "$set" d']) := by
  rw [← run_updateMany_eq_ok "update "]
  unfold update
  rw [run_split_bind hq hds, hd]
  rfl

/-- What taking out columns hands over to the database. -/
theorem run_unset_eq_ok (hq : q.source ≠ .detached) {ds : List Document}
    (hds : filters q.stages = .ok ds) (columns : List Value) :
    (unset ctx columns).run (q, s) = (.ok n, q', s') ↔
      Sends ctx q q' s s' n (.ofEntries ds.flatten)
        (others q.stages ++ [.single "$unset" (.list columns)]) := by
  rw [← run_updateMany_eq_ok ("unset " ++ (Value.list columns).literal ++ " on ")]
  unfold unset
  rw [run_split_bind hq hds]

/-! ## The conjunction -/

/-- Entries written over one another are the conjunction of them all, whatever entries mean, exactly
if those under the same key agree. -/
theorem selects_ofEntries_iff {es : Document} (hkeys : ∀ e ∈ es, e.1.unhashable? = none) :
    (∀ meaning doc, Selects meaning (.ofEntries es) doc ↔ Selects meaning es doc) ↔
      Document.Agree es := by
  constructor
  · intro h a ha b hb hsame
    -- Let an entry mean that it is handed over.
    have hall : Selects (fun k v _ => (k, v) ∈ Document.ofEntries es) es [] :=
      (h _ []).1 fun _ he => he
    exact (Document.distinct_ofEntries es).eq_of_same (hall a ha) (hall b hb) (hkeys a ha) hsame
  · intro hagree meaning doc
    unfold Selects
    simp only [Document.mem_ofEntries_of_agree hagree]

theorem selects_flatten {meaning : Value → Value → Document → Prop} {ds : List Document}
    {doc : Document} : Selects meaning ds.flatten doc ↔ ∀ d ∈ ds, Selects meaning d doc := by
  simp only [Selects, List.mem_flatten]
  constructor
  · exact fun h d hd e he => h e ⟨d, hd, he⟩
  · rintro h e ⟨d, hd, he⟩
    exact h d hd e he

/-- A bulk update hands over one request, with the filters of the query in one, its other stages
and one that does the update. A document passes that filter when it passes all filters of the query,
whatever their entries mean, exactly if entries of these filters under the same key agree. -/
theorem update_unset_selects_iff (hq : q.source ≠ .detached) {ds : List Document}
    (hds : filters q.stages = .ok ds) (hkeys : ∀ e ∈ ds.flatten, e.1.unhashable? = none) :
    (∀ d d' s s' q' n, d.normalizeDates = .ok d' →
      ((update ctx d).run (q, s) = (.ok n, q', s') ↔
        Sends ctx q q' s s' n (.ofEntries ds.flatten)
          (others q.stages ++ [.single "$set" d']))) ∧
    (∀ columns s s' q' n,
      (unset ctx columns).run (q, s) = (.ok n, q', s') ↔
        Sends ctx q q' s s' n (.ofEntries ds.flatten)
          (others q.stages ++ [.single "$unset" (.list columns)])) ∧
    ((∀ meaning doc, Selects meaning (.ofEntries ds.flatten) doc ↔
        ∀ d ∈ ds, Selects meaning d doc) ↔ Document.Agree ds.flatten) := by
  refine ⟨fun d d' s s' q' n hd => run_update_eq_ok hq hds hd, fun columns s s' q' n =>
    run_unset_eq_ok hq hds columns, ?_⟩
  rw [← selects_ofEntries_iff hkeys]
  simp only [selects_flatten]

/-! ### Orders between two totals -/

/-- A filter that compares a column with a bound. -/
def bound (column operator : String) (n : Int) : Document :=
  [(.text column, .single operator (.int n))]

def ordersWhere (fs : List Document) : Query :=
  ⟨"orders", .attached none, fs.map fun f => .filter (.dict f), []⟩

theorem update_unset_selects_iff_apart :
    (ordersWhere [bound "total" "$gte" 10, bound "rank" "$lt" 3]).source ≠ .detached ∧
    ∀ meaning doc,
      Selects meaning (.ofEntries (bound "total" "$gte" 10 ++ bound "rank" "$lt" 3)) doc ↔
        ∀ d ∈ [bound "total" "$gte" 10, bound "rank" "$lt" 3], Selects meaning d doc := by
  have hq : (ordersWhere [bound "total" "$gte" 10, bound "rank" "$lt" 3]).source ≠ .detached := by
    decide
  obtain ⟨-, -, hiff⟩ := @update_unset_selects_iff _ Context.quiet _ hq
    [bound "total" "$gte" 10, bound "rank" "$lt" 3] rfl (by simp [bound, Value.unhashable?])
  refine ⟨hq, hiff.2 ?_⟩
  simp [Document.Agree, bound, Value.same, Value.sameScalar]

/-- Comparisons of the number in a column, as the database makes them. -/
def compares : Value → Value → Document → Prop
  | .text column, .dict [(.text "$gte", .int n)], doc =>
    ∃ k, doc.field? column = some (.int k) ∧ n ≤ k
  | .text column, .dict [(.text "$lt", .int n)], doc =>
    ∃ k, doc.field? column = some (.int k) ∧ k < n
  | _, _, _ => False

/-- A database that keeps the filters of the updates it takes. -/
def keeping : Context (List Document) :=
  { Context.sample [] fun _ => return 1 with
    execute := fun
      | ⟨_, .updateMany filter _⟩ => do
        modify (· ++ [filter])
        return 1
      | _ => throw (.raised "refused") }

/-- Of the two bounds of a total only the upper one is handed over, so that an order below the
lower one is updated too. -/
theorem not_selects_between :
    let q := ordersWhere [bound "total" "$gte" 10, bound "total" "$lt" 20]
    let order : Document := [(.text "total", .int 5)]
    ∃ handed, (update keeping (.dict [])).run (q, []) = (.ok 1, q, [handed]) ∧
      Selects compares handed order ∧ ¬ Selects compares (bound "total" "$gte" 10) order := by
  refine ⟨bound "total" "$lt" 20, rfl, ?_, ?_⟩
  · intro e he
    rw [List.mem_singleton.1 he]
    exact ⟨5, rfl, by decide⟩
  · intro h
    obtain ⟨k, hk, hle⟩ := h _ List.mem_cons_self
    cases hk
    exact absurd hle (by decide)

end Query

end DocumentMapper
