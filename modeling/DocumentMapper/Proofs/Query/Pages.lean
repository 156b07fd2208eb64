import DocumentMapper.Proofs.Model.Sample
import DocumentMapper.Proofs.Query.Trail

/-!
# What a call for a page leaves behind

A call for a page puts the window of the page behind the stages of the query, takes it out again
when the documents are there, and then counts, which puts the group that counts behind the stages.
Nothing takes this group out, and nothing takes the window out when the documents cannot be had. So
the query is as it was only after a call that is refused before it does anything, and the next
call asks for the pages of what the last one has left.
-/

namespace DocumentMapper.Query

open DocumentMapper.Action

variable {σ : Type} {ctx : Context σ} {visit : Visit σ} {q : Query}

/-- The stages that cut a page out. -/
def window (start limit : Value) : List Stage :=
  [.skip start, .limit limit]

/-- Where a page starts among all documents, if there can be such a page. -/
def pageStart (page limit : Value) : Except Error Value := do
  requireBounds page limit
  (← page.sub (.int 1)).mul limit

/-- How many pages there are. -/
def pageCount (total limit : Value) : Except Error Int :=
  if limit.isTruthy then total.ceilingQuotient limit else .ok 0

/-- What a call for a page of a size leaves of the query, does and ends with. It is refused before
anything is done, or it fails up to when the documents are there, or it fails later on, or it
gives the page. -/
inductive Paged (q : Query) (page limit : Value) (map : Option Transform) :
    Query → List Deed → Except Error Page → Prop
  | refused {e : Error} : pageStart page limit = .error e → Paged q page limit map q [] (.error e)
  | unfetched {start : Value} {deeds : List Deed} {answer : Except Error (List Document)}
      {e : Error} :
      pageStart page limit = .ok start →
      deeds <+: [.asked q.collection (q.appended (window start limit)).wire answer] →
      Paged q page limit map (q.appended (window start limit)) deeds (.error e)
  | uncounted {start : Value} {found : List Document} {documents : List Value}
      {more : List Deed} {answer : Except Error (List Document)} {e : Error} :
      pageStart page limit = .ok start → results q map found = .ok documents →
      more <+: [.asked q.collection (q.appended [tally]).wire answer] →
      Paged q page limit map (q.appended [tally])
        (.asked q.collection (q.appended (window start limit)).wire (.ok found) :: more) (.error e)
  | given {start total : Value} {found counted : List Document} {documents : List Value}
      {pages : Int} :
      pageStart page limit = .ok start → results q map found = .ok documents →
      tallied counted = .ok total → pageCount total limit = .ok pages →
      Paged q page limit map (q.appended [tally])
        [.asked q.collection (q.appended (window start limit)).wire (.ok found),
          .asked q.collection (q.appended [tally]).wire (.ok counted)]
        (.ok ⟨documents, limit, page, total, pages⟩)

theorem leads_paginate (hctx : ctx.SparesQueries) (visit : Visit σ) (q : Query)
    (page limit : Value) (map : Option Transform) :
    Leads ctx visit (paginate ctx page limit map) q
      (Paged q page (pageLimit ctx q limit) map) := by
  generalize hsize : pageLimit ctx q limit = size
  refine .after (a := q) (fun s => rfl) ?_
  rw [hsize]
  refine .check ?_ ?_
  · intro ⟨⟩ hbounds
    refine .after (a := q) (fun s => rfl) (.check ?_ ?_)
    · intro start hstart
      have hpage : pageStart page size = .ok start := by
        rw [pageStart, hbounds]
        exact hstart
      have hskip : ∀ s : σ, (refine (.skip start) : Run σ Unit).run (q, s) =
          (.ok (), q.appended [.skip start], s) := fun s => rfl
      have hlimit : ∀ s : σ, (refine (.limit size) : Run σ Unit).run
          (q.appended [.skip start], s) = (.ok (), q.appended (window start size), s) := by
        intro s
        have happend := appended_appended q [.skip start] [.limit size]
        exact congrArg (fun q' => (Except.ok (), q', s)) happend
      refine .after hskip (.after hlimit ((leads_fetch hctx _ map).bind ?_ ?_))
      · rintro _ deeds documents ⟨rfl, hfetched⟩
        cases hfetched with
        | read hresults =>
          have hrestore : ∀ s : σ, (restore q.stages : Run σ Unit).run
              (q.appended (window start size), s) = (.ok (), q, s) := fun s => rfl
          refine .after hrestore ((leads_count hctx visit q).bind ?_ ?_)
          · rintro _ more total ⟨rfl, hcounted⟩
            cases hcounted with
            | read htallied =>
              refine .check ?_ ?_
              · intro pages hpages
                exact .silent (fun s => rfl) (.given hpage hresults htallied hpages)
              · intro e hpages
                exact .uncounted hpage hresults List.prefix_rfl
          · rintro _ more e ⟨rfl, hcounted⟩
            cases hcounted with
            | failed hasked => exact .uncounted hpage hresults hasked
      · rintro _ deeds e ⟨rfl, hfetched⟩
        cases hfetched with
        | failed hasked => exact .unfetched hpage hasked
    · intro e hstart
      refine .refused ?_
      rw [pageStart, hbounds]
      exact hstart
  · intro e hbounds
    refine .refused ?_
    rw [pageStart, hbounds]
    rfl

/-- The pipeline of a request, none of what is no request. -/
def Deed.pipeline : Deed → List Value
  | asked _ pipeline _ => pipeline
  | shown .. => []

/-- What a call for a page that is not refused asks first. -/
theorem Paged.pipeline_of_mem_head? {page limit start : Value} {map : Option Transform}
    {q' : Query} {deeds : List Deed} {outcome : Except Error Page}
    (h : Paged q page limit map q' deeds outcome) (hstart : pageStart page limit = .ok start) :
    ∀ a ∈ deeds.head?, a.pipeline = (q.appended (window start limit)).wire := by
  intro a ha
  cases h with
  | refused hrefused => cases ha
  | unfetched hstart' hasked =>
    cases hstart.symm.trans hstart'
    obtain ⟨rest, hrest⟩ := hasked
    cases deeds with
    | nil => cases ha
    | cons b deeds =>
      cases ha
      obtain ⟨rfl, -⟩ := List.cons.inj hrest
      rfl
  | uncounted hstart' =>
    cases hstart.symm.trans hstart'
    cases ha
    rfl
  | given hstart' =>
    cases hstart.symm.trans hstart'
    cases ha
    rfl

theorem Paged.eq_nil {page limit : Value} {map : Option Transform} {q' : Query}
    {deeds : List Deed} {outcome : Except Error Page} {e : Error}
    (h : Paged q page limit map q' deeds outcome) (hrefused : pageStart page limit = .error e) :
    deeds = [] := by
  cases h with
  | refused => rfl
  | unfetched hstart => cases hrefused.symm.trans hstart
  | uncounted hstart => cases hrefused.symm.trans hstart
  | given hstart => cases hrefused.symm.trans hstart

theorem Paged.exists_appended {page limit : Value} {map : Option Transform}
    {q' : Query} {deeds : List Deed} {outcome : Except Error Page}
    (h : Paged q page limit map q' deeds outcome) :
    ∃ more, q' = q.appended more ∧ (more = [] ↔ ∃ e, pageStart page limit = .error e) := by
  cases h with
  | refused hrefused => exact ⟨[], by simp [appended], by simp [hrefused]⟩
  | unfetched hstart => exact ⟨_, rfl, by simp [hstart, window]⟩
  | uncounted hstart => exact ⟨_, rfl, by simp [hstart]⟩
  | given hstart => exact ⟨_, rfl, by simp [hstart]⟩

/-- A call for a page leaves the query as it was if the page is refused, and in no other case: when
the documents cannot be had the window of the page stays, and otherwise the stage that counts
does. A second call with the same arguments then asks for something else. -/
theorem paginate_restores_iff (hctx : ctx.SparesQueries) (visit : Visit σ) (q : Query)
    (page limit : Value) (map : Option Transform) (s : σ) :
    ∃ outcome q' s' deeds, (paginate ctx page limit map).run (q, s) = (outcome, q', s') ∧
      Trail ctx visit s deeds s' ∧
      Paged q page (pageLimit ctx q limit) map q' deeds outcome ∧
      (q'.stages = q.stages ↔ ∃ e, pageStart page (pageLimit ctx q limit) = .error e) ∧
      ∀ s, ∃ outcome q'' s' again, (paginate ctx page limit map).run (q', s) = (outcome, q'', s') ∧
        Trail ctx visit s again s' ∧
        ∀ a ∈ deeds.head?, ∀ b ∈ again.head?, a.pipeline ≠ b.pipeline := by
  obtain ⟨outcome, q', s', deeds, hrun, htrail, hpaged⟩ :=
    leads_paginate hctx visit q page limit map s
  obtain ⟨more, rfl, hmore⟩ := hpaged.exists_appended
  have hstages : (q.appended more).stages = q.stages ↔ more = [] := by simp [appended]
  refine ⟨outcome, _, s', deeds, hrun, htrail, hpaged, hstages.trans hmore, fun s => ?_⟩
  obtain ⟨outcome', q'', s'', again, hrun', htrail', hpaged'⟩ :=
    leads_paginate hctx visit (q.appended more) page limit map s
  refine ⟨outcome', q'', s'', again, hrun', htrail', fun a ha b hb hsame => ?_⟩
  cases hstart : pageStart page (pageLimit ctx q limit) with
  | error e =>
    rw [hpaged.eq_nil hstart] at ha
    cases ha
  | ok start =>
    rw [hpaged.pipeline_of_mem_head? hstart a ha,
      hpaged'.pipeline_of_mem_head? hstart b hb] at hsame
    have hlength := congrArg List.length hsame
    simp only [wire, appended, window, List.length_map, List.length_append, List.length_cons]
      at hlength
    have hnil : more = [] := List.length_eq_zero_iff.1 (by omega)
    obtain ⟨e, he⟩ := hmore.1 hnil
    cases hstart.symm.trans he

/-! ## Two calls with the same arguments -/

def openQuery : Query :=
  { fresh "orders" (.attached none) with
    stages := [.filter (.dict [(.text "status", .text "open")])] }

theorem sparesQueries_journaling : Context.journaling.SparesQueries :=
  fun _ => .pure (List.forall_mem_nil _)

/-- The first ten open orders leave the query changed; the ones before them, which there are not,
leave it as it was. -/
theorem paginate_restores_iff_orders :
    Context.journaling.SparesQueries ∧
    (∃ p q' journal, (paginate .journaling (.int 1) (.int 10) none).run (openQuery, []) =
      (.ok p, q', journal) ∧ q'.stages ≠ openQuery.stages) ∧
    (∃ e q' journal, (paginate .journaling (.int 0) (.int 10) none).run (openQuery, []) =
      (.error e, q', journal) ∧ q'.stages = openQuery.stages) := by
  have hspares := sparesQueries_journaling
  refine ⟨hspares, ?_, ?_⟩
  · obtain ⟨outcome, q', journal, -, hrun, -, -, hiff, -⟩ := paginate_restores_iff
      hspares (fun _ _ => return .null) openQuery (.int 1) (.int 10) none []
    have hgiven : ∃ p t, (paginate .journaling (.int 1) (.int 10) none).run (openQuery, []) =
        (.ok p, t) := ⟨_, _, rfl⟩
    obtain ⟨p, t, hp⟩ := hgiven
    cases hrun.symm.trans hp
    refine ⟨p, q', journal, hrun, fun hsame => ?_⟩
    obtain ⟨e, he⟩ := hiff.1 hsame
    cases he
  · obtain ⟨outcome, q', journal, -, hrun, -, -, hiff, -⟩ := paginate_restores_iff
      hspares (fun _ _ => return .null) openQuery (.int 0) (.int 10) none []
    have hrefused : ∃ e t, (paginate .journaling (.int 0) (.int 10) none).run (openQuery, []) =
        (.error e, t) := ⟨_, _, rfl⟩
    obtain ⟨e, t, he⟩ := hrefused
    cases hrun.symm.trans he
    exact ⟨e, q', journal, hrun, hiff.2 ⟨_, rfl⟩⟩

/-- What a call for a page asks for, and what a second one does on the query that the first one has
left. -/
theorem not_restored_orders :
    ∃ p q' p' q'', (paginate .journaling (.int 1) (.int 10) none).run (openQuery, []) =
        (.ok p, q', [⟨"orders", .aggregate (openQuery.appended (window (.int 0) (.int 10))).wire⟩,
          ⟨"orders", .aggregate (openQuery.appended [tally]).wire⟩]) ∧
      q'.stages ≠ openQuery.stages ∧
      (paginate .journaling (.int 1) (.int 10) none).run (q', []) =
        (.ok p', q'',
          [⟨"orders", .aggregate (openQuery.appended (tally :: window (.int 0) (.int 10))).wire⟩,
            ⟨"orders", .aggregate (openQuery.appended [tally, tally]).wire⟩]) := by
  refine ⟨_, _, _, _, rfl, ?_, rfl⟩
  exact List.append_right_eq_self.not.2 (List.cons_ne_nil _ _)

end DocumentMapper.Query
