import DocumentMapper.Proofs.Query.Handing

/-!
# The trail of a run

What a run of a query does to the outside can be read off one state after another: it asks the
database for what a pipeline gives, it shows a page to whoever wants to see the pages, and it tells
the listeners before it asks. A trail is a list of these deeds that leads from one state to
another. `Leads` says of a run which query it leaves, which deeds it takes and how it ends; it is
put together from the runs that a run is made of.

Listeners are told of the query itself and could change it. Here they leave it as it is.
-/

namespace DocumentMapper

open DocumentMapper.Action

variable {σ α β : Type}

/-- Listeners that hear of a query before it is run leave it as it is. -/
def Context.SparesQueries (ctx : Context σ) : Prop :=
  ∀ id, (ctx.listeners id .fetching).Upholds (fun _ => True) fun ls =>
    ∀ l ∈ ls, ∀ q : Query, l.onQuery.Preserves fun t => t.1 = q

namespace Query

inductive Deed where
  | asked (collection : String) (pipeline : List Value) (answer : Except Error (List Document))
  | shown (documents : List Value) (info : Value) (answer : Except Error Value)

variable (ctx : Context σ) (visit : Visit σ)

/-- Deeds that lead from a state to another one. Telling the listeners is not counted as a deed. -/
inductive Trail : σ → List Deed → σ → Prop
  | nil {s : σ} : Trail s [] s
  | told {s s₁ s' : σ} {q q' : Query} {outcome : Except Error Unit} {deeds : List Deed} :
      (announce ctx .fetching).run (q, s) = (outcome, q', s₁) → Trail s₁ deeds s' →
      Trail s deeds s'
  | asked {s s₁ s' : σ} {collection : String} {pipeline : List Value}
      {answer : Except Error (List Document)} {deeds : List Deed} :
      (ctx.request collection (.aggregate pipeline)).run s = (answer, s₁) → Trail s₁ deeds s' →
      Trail s (.asked collection pipeline answer :: deeds) s'
  | shown {s s₁ s' : σ} {documents : List Value} {info : Value} {answer : Except Error Value}
      {deeds : List Deed} :
      (visit documents info).run s = (answer, s₁) → Trail s₁ deeds s' →
      Trail s (.shown documents info answer :: deeds) s'

/-- Wherever a run with a query begins, what it leaves, does and ends with are related. -/
def Leads (act : Run σ α) (q : Query) (R : Query → List Deed → Except Error α → Prop) : Prop :=
  ∀ s, ∃ outcome q' s' deeds, act.run (q, s) = (outcome, q', s') ∧ Trail ctx visit s deeds s' ∧
    R q' deeds outcome

variable {ctx visit} {q : Query} {s s₁ s' : σ} {deeds more : List Deed}

theorem Trail.append (h : Trail ctx visit s deeds s₁) (h' : Trail ctx visit s₁ more s') :
    Trail ctx visit s (deeds ++ more) s' := by
  induction h with
  | nil => exact h'
  | told htell _ ih => exact .told htell (ih h')
  | asked hask _ ih => exact .asked hask (ih h')
  | shown hshow _ ih => exact .shown hshow (ih h')

namespace Leads

variable {R R' : Query → List Deed → Except Error α → Prop}
  {S : Query → List Deed → Except Error β → Prop} {act : Run σ α} {next : α → Run σ β}

theorem mono (h : Leads ctx visit act q R)
    (hR : ∀ q' deeds outcome, R q' deeds outcome → R' q' deeds outcome) :
    Leads ctx visit act q R' := by
  intro s
  obtain ⟨outcome, q', s', deeds, hrun, htrail, h⟩ := h s
  exact ⟨outcome, q', s', deeds, hrun, htrail, hR _ _ _ h⟩

/-- A run that does nothing to the outside. -/
theorem silent {outcome : Except Error α} {q' : Query}
    (hrun : ∀ s, act.run (q, s) = (outcome, q', s)) (h : R q' [] outcome) :
    Leads ctx visit act q R :=
  fun s => ⟨outcome, q', s, [], hrun s, .nil, h⟩

theorem bind (h : Leads ctx visit act q R)
    (hnext : ∀ q' deeds a, R q' deeds (.ok a) →
      Leads ctx visit (next a) q' fun q'' more outcome => S q'' (deeds ++ more) outcome)
    (hfail : ∀ q' deeds e, R q' deeds (.error e) → S q' deeds (.error e)) :
    Leads ctx visit (act >>= next) q S := by
  intro s
  obtain ⟨e | a, q', s', deeds, hrun, htrail, h⟩ := h s
  · exact ⟨.error e, q', s', deeds, run_bind_error hrun, htrail, hfail _ _ _ h⟩
  · obtain ⟨outcome, q'', s'', more, hrun', htrail', h'⟩ := hnext q' deeds a h s'
    exact ⟨outcome, q'', s'', deeds ++ more, (run_bind_ok hrun).trans hrun',
      htrail.append htrail', h'⟩

/-- What comes after a run that does nothing to the outside and succeeds. -/
theorem after {a : α} {q' : Query} (hrun : ∀ s, act.run (q, s) = (.ok a, q', s))
    (hnext : Leads ctx visit (next a) q' S) : Leads ctx visit (act >>= next) q S := by
  intro s
  obtain ⟨outcome, q'', s', deeds, hrun', htrail, h⟩ := hnext s
  exact ⟨outcome, q'', s', deeds, (run_bind_ok (hrun s)).trans hrun', htrail, h⟩

/-- A run that is told apart by a computation which may fail. -/
theorem check {found : Except Error α} {next : α → Run σ β}
    (hnext : ∀ a, found = .ok a → Leads ctx visit (next a) q S)
    (hfail : ∀ e, found = .error e → S q [] (.error e)) :
    Leads ctx visit (Query.check found >>= next) q S := by
  cases found with
  | error e => exact .silent (fun s => rfl) (hfail e rfl)
  | ok a => exact .after (fun s => rfl) (hnext a rfl)

/-- A run on a query of its own leaves the query as it is. -/
theorem onClone (h : Leads ctx visit act q R) :
    Leads ctx visit (Query.onClone act) q fun q' deeds outcome =>
      q' = q ∧ ∃ own, R own deeds outcome := by
  intro s
  obtain ⟨outcome, own, s', deeds, hrun, htrail, h⟩ := h s
  refine ⟨outcome, q, s', deeds, ?_, htrail, rfl, own, h⟩
  simp only [Query.onClone, hrun]

theorem shown {documents : List Value} {info : Value}
    {R : Query → List Deed → Except Error Value → Prop}
    (h : ∀ answer, R q [.shown documents info answer] answer) :
    Leads ctx visit (outside (visit documents info)) q R := by
  intro s
  rcases hvisit : (visit documents info).run s with ⟨answer, s'⟩
  exact ⟨answer, q, s', _, run_second hvisit q, .shown hvisit .nil, h answer⟩

end Leads

/-! ## Asking the database -/

/-- A query with more stages behind its own. -/
def appended (q : Query) (more : List Stage) : Query :=
  { q with stages := q.stages ++ more }

theorem appended_appended (q : Query) (first more : List Stage) :
    (q.appended first).appended more = q.appended (first ++ more) := by
  simp only [appended, List.append_assoc]

theorem run_announce (hctx : ctx.SparesQueries) (q : Query) (s : σ) :
    ∃ outcome s', (announce ctx .fetching).run (q, s) = (outcome, q, s') := by
  have htell : (ctx.tell (audience ctx q) .fetching fun l => l.onQuery).Upholds
      (Beside (· = q) fun _ => True) fun _ => True :=
    .forM fun id _ => (Upholds.second (hctx id)).bind fun _ hls =>
      .forM fun l hl t ht => ⟨⟨hls l hl q t ht.1, trivial⟩, fun _ _ => trivial⟩
  have hquery := (htell (q, s) ⟨rfl, trivial⟩).1.1
  change ∃ outcome s', (ctx.tell (audience ctx q) .fetching fun l => l.onQuery).run (q, s) = _
  rcases htold : (ctx.tell (audience ctx q) .fetching fun l => l.onQuery).run (q, s)
    with ⟨outcome, q', s'⟩
  rw [htold] at hquery
  cases hquery
  exact ⟨outcome, s', rfl⟩

/-- What a run does that asks once for what the pipeline of a query gives, and what it makes of the
answer. It may fail before it asks, and with the answer or after it. -/
inductive Answered (q : Query) (read : List Document → Except Error α) :
    List Deed → Except Error α → Prop
  | read {found : List Document} {a : α} : read found = .ok a →
      Answered q read [.asked q.collection q.wire (.ok found)] (.ok a)
  | failed {deeds : List Deed} {answer : Except Error (List Document)} {e : Error} :
      deeds <+: [.asked q.collection q.wire answer] → Answered q read deeds (.error e)

theorem leads_execute (hctx : ctx.SparesQueries) (q : Query) :
    Leads ctx visit (execute ctx) q fun q' deeds outcome =>
      q' = q ∧ Answered q .ok deeds outcome := by
  have hunasked : ∀ e, Answered q .ok [] (.error e : Except Error (List Document)) :=
    fun e => .failed (List.nil_prefix : [] <+: [Deed.asked q.collection q.wire (.error e)])
  by_cases hsource : q.source = .detached
  · have hexecutor : ∀ s : σ, (requireExecutor : Run σ Unit).run (q, s) =
        (.error (.detachedQuery q.collection), q, s) := by
      intro s
      simp [requireExecutor, current, run_bind, hsource]
    exact .silent (fun s => run_bind_error (hexecutor s)) ⟨rfl, hunasked _⟩
  · have hexecutor : ∀ s : σ, (requireExecutor : Run σ Unit).run (q, s) = (.ok (), q, s) := by
      intro s
      cases hkind : q.source with
      | detached => exact absurd hkind hsource
      | attached events => simp [requireExecutor, current, run_bind, hkind]
      | model name => simp [requireExecutor, current, run_bind, hkind]
    refine .after hexecutor fun s => ?_
    obtain ⟨told, s₁, hannounce⟩ := run_announce hctx q s
    cases told with
    | error e =>
      exact ⟨_, q, s₁, [], run_bind_error hannounce, .told hannounce .nil, rfl, hunasked e⟩
    | ok told =>
      rcases hrequest : (ctx.request q.collection (.aggregate q.wire)).run s₁ with ⟨answer, s'⟩
      refine ⟨answer, q, s', [.asked q.collection q.wire answer], ?_,
        .told hannounce (.asked hrequest .nil), rfl, ?_⟩
      · exact (run_bind_ok hannounce).trans (run_second hrequest q)
      · cases answer with
        | error e => exact .failed List.prefix_rfl
        | ok found => exact .read rfl

/-- Asks for what the pipeline gives and makes something of it. -/
theorem leads_reading (hctx : ctx.SparesQueries) {read : List Document → Except Error α}
    {next : List Document → Run σ α}
    (hnext : ∀ found s, (next found).run (q, s) = (read found, q, s)) :
    Leads ctx visit (execute ctx >>= next) q fun q' deeds outcome =>
      q' = q ∧ Answered q read deeds outcome := by
  refine (leads_execute hctx q).bind ?_ ?_
  · rintro q' deeds found ⟨rfl, hanswered⟩
    cases hanswered with
    | read hfound =>
      cases hfound
      rcases hread : read found with e | a
      · exact .silent (fun s => (hnext found s).trans (by rw [hread]))
          ⟨rfl, .failed List.prefix_rfl⟩
      · exact .silent (fun s => (hnext found s).trans (by rw [hread])) ⟨rfl, .read hread⟩
  · rintro q' deeds e ⟨rfl, hanswered⟩
    cases hanswered with
    | failed hasked => exact ⟨rfl, .failed hasked⟩

theorem leads_fetch (hctx : ctx.SparesQueries) (q : Query) (map : Option Transform) :
    Leads ctx visit (fetch ctx map) q fun q' deeds outcome =>
      q' = q ∧ Answered q (results q map) deeds outcome :=
  leads_reading hctx fun _ _ => rfl

/-! ## Counting -/

/-- The stage that counts. -/
def tally : Stage :=
  ⟨"group", .dict [(.text "_id", .null), (.text "total", .single "$sum" (.int 1))]⟩

/-- The number that the documents of a count give. -/
def tallied (found : List Document) : Except Error Value :=
  Path.getD (.list (found.map .dict)) ["0", "total"] (.int 0)

theorem leads_count (hctx : ctx.SparesQueries) (visit : Visit σ) (q : Query) :
    Leads ctx visit (count ctx) q fun q' deeds outcome =>
      q' = q.appended [tally] ∧ Answered (q.appended [tally]) tallied deeds outcome := by
  have hrefine : ∀ s : σ, (refine (groupAll "total" (.single "$sum" (.int 1))) : Run σ Unit).run
      (q, s) = (.ok (), q.appended [tally], s) := fun s => rfl
  exact .after (fun s => rfl) (.after hrefine (leads_reading hctx fun _ _ => rfl))

end Query

end DocumentMapper
