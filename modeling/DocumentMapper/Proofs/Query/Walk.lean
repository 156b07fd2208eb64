import DocumentMapper.Proofs.Number.Quotient
import DocumentMapper.Proofs.Query.Pages

/-!
# A walk through all pages

A walk counts the documents once and then takes one round after another. In a round the query is
asked for a page and for the number of documents, and the page is shown. The rounds are told from
their deeds by induction on the pages that are left: each round ends the walk, by failing or by
being answered with false, or it is followed by the walk through the rest. That the pages which are
left at the beginning are the right ones is a matter of the first count alone.
-/

namespace DocumentMapper.Query

open DocumentMapper.Action

variable {σ : Type} {ctx : Context σ} {visit : Visit σ} {q : Query} {n left p : Nat}
  {map : Option Transform} {cut : List Deed} {outcome : Except Error Unit} {e : Error}

/-! ## Rounds -/

/-- The requests for a page, the first page being that of number zero: one for its documents and one
for the number of all documents. -/
def asks (q : Query) (n p : Nat) (found counted : Except Error (List Document)) : List Deed :=
  [.asked q.collection (q.appended (window (.int (p * n : Nat)) (.int n))).wire found,
    .asked q.collection (q.appended [tally]).wire counted]

/-- A round of a walk: the page that is made of two answers is shown, and is answered. -/
structure Round where
  found : List Document
  counted : List Document
  page : Page
  answer : Except Error Value

namespace Round

def deeds (q : Query) (n p : Nat) (r : Round) : List Deed :=
  asks q n p (.ok r.found) (.ok r.counted) ++ [.shown r.page.documents r.page.info r.answer]

/-- The deeds of rounds from a page on. -/
def allDeeds (q : Query) (n : Nat) : Nat → List Round → List Deed
  | _, [] => []
  | p, r :: rest => r.deeds q n p ++ allDeeds q n (p + 1) rest

/-- What is shown is the page that the answers make. -/
structure Shows (q : Query) (n : Nat) (map : Option Transform) (p : Nat) (r : Round) : Prop where
  documents : results q map r.found = .ok r.page.documents
  limit : r.page.limit = .int n
  page : r.page.page = .int (p + 1 : Nat)
  total : tallied r.counted = .ok r.page.total
  pages : pageCount r.page.total (.int n) = .ok r.page.pages

end Round

/-- What there is of a round that fails: the requests up to some point, or all of the round if it
is the caller who fails. -/
inductive Cut (q : Query) (n : Nat) (map : Option Transform) (p : Nat) : List Deed → Error → Prop
  | unshown {cut : List Deed} {found counted : Except Error (List Document)} {e : Error} :
      cut <+: asks q n p found counted → Cut q n map p cut e
  | shown {r : Round} {e : Error} : r.Shows q n map p → r.answer = .error e →
      Cut q n map p (r.deeds q n p) e

/-- A walk through the pages that are left, from a page on. -/
structure Course (q : Query) (n : Nat) (map : Option Transform) (left p : Nat)
    (rounds : List Round) (cut : List Deed) (outcome : Except Error Unit) : Prop where
  length_le : rounds.length ≤ left
  shows : ∀ i (r : Round), rounds[i]? = some r → r.Shows q n map (p + i) ∧ ∃ v, r.answer = .ok v
  goes_on : ∀ i (r : Round), rounds[i]? = some r → i + 1 < rounds.length →
    r.answer ≠ .ok (.bool false)
  ends : outcome = .ok () → cut = [] ∧
    (rounds.length = left ∨ ∃ r, rounds.getLast? = some r ∧ r.answer = .ok (.bool false))
  fails : ∀ e, outcome = .error e → rounds.length < left ∧
    (∀ r ∈ rounds, r.answer ≠ .ok (.bool false)) ∧ Cut q n map (p + rounds.length) cut e

namespace Course

variable {r : Round} {rounds : List Round}

theorem finished : Course q n map 0 p [] [] (.ok ()) where
  length_le := le_rfl
  shows _ _ h := nomatch h
  goes_on _ _ h := nomatch h
  ends _ := ⟨rfl, .inl rfl⟩
  fails _ h := nomatch h

theorem fail (hcut : Cut q n map p cut e) : Course q n map (left + 1) p [] cut (.error e) where
  length_le := Nat.zero_le _
  shows _ _ h := nomatch h
  goes_on _ _ h := nomatch h
  ends h := nomatch h
  fails e' h := by
    cases h
    exact ⟨Nat.zero_lt_succ _, List.forall_mem_nil _, hcut⟩

theorem stop (hr : r.Shows q n map p) (hanswer : r.answer = .ok (.bool false)) :
    Course q n map (left + 1) p [r] [] (.ok ()) where
  length_le := by simp
  shows i r' h := by
    cases i with
    | zero =>
      cases h
      exact ⟨hr, _, hanswer⟩
    | succ i => cases h
  goes_on i r' h hlt := by
    rw [List.length_singleton] at hlt
    omega
  ends _ := ⟨rfl, .inr ⟨r, rfl, hanswer⟩⟩
  fails _ h := nomatch h

theorem next {v : Value} (hr : r.Shows q n map p) (hanswer : r.answer = .ok v)
    (hv : v ≠ .bool false) (h : Course q n map left (p + 1) rounds cut outcome) :
    Course q n map (left + 1) p (r :: rounds) cut outcome where
  length_le := Nat.succ_le_succ h.length_le
  shows i r' hi := by
    cases i with
    | zero =>
      cases hi
      exact ⟨hr, v, hanswer⟩
    | succ i =>
      rw [← Nat.succ_add_eq_add_succ]
      exact h.shows i r' hi
  goes_on i r' hi hlt := by
    cases i with
    | zero =>
      cases hi
      rw [hanswer]
      simpa using hv
    | succ i => exact h.goes_on i r' hi (Nat.lt_of_succ_lt_succ hlt)
  ends houtcome := by
    obtain ⟨hcut, hall | ⟨last, hlast, hfalse⟩⟩ := h.ends houtcome
    · exact ⟨hcut, .inl (congrArg Nat.succ hall)⟩
    · refine ⟨hcut, .inr ⟨last, ?_, hfalse⟩⟩
      rw [List.getLast?_cons, hlast]
      rfl
  fails e houtcome := by
    obtain ⟨hlt, hgoes, hfailed⟩ := h.fails e houtcome
    refine ⟨Nat.succ_lt_succ hlt, List.forall_mem_cons.2 ⟨?_, hgoes⟩, ?_⟩
    · rw [hanswer]
      simpa using hv
    · rwa [List.length_cons, ← Nat.succ_add_eq_add_succ]

end Course

/-! ## The walk -/

theorem atLeastOne_int (hn : 1 ≤ n) : atLeastOne (.int n) = .ok true := by
  have hless : (Value.int n).less (.int 1) = .ok false := by
    simp [Value.less, Value.numeric?]
    omega
  simp [atLeastOne, hless, bind, Except.bind]

theorem pageStart_int (hn : 1 ≤ n) (p : Nat) :
    pageStart (.int (p + 1 : Nat)) (.int n) = .ok (.int (p * n : Nat)) := by
  have hbounds : requireBounds (.int (p + 1 : Nat)) (.int n) = .ok () := by
    simp only [requireBounds, atLeastOne_int hn, atLeastOne_int (Nat.succ_pos p)]
    rfl
  have hskipped : (Value.int (p + 1 : Nat)).sub (.int 1) = .ok (.int p) := by
    simp [Value.sub, Value.numeric?, Value.arithmetic]
  have hproduct : (Value.int p).mul (.int n) = .ok (.int (p * n : Nat)) := by
    simp [Value.mul, Value.numeric?, Value.arithmetic]
  simp only [pageStart, hbounds, hskipped, hproduct, bind, Except.bind]

theorem pageLimit_int (ctx : Context σ) (q : Query) (n : Nat) :
    pageLimit ctx q (.int n) = .int n := by
  unfold pageLimit
  cases q.source <;> rfl

theorem leads_walk (hctx : ctx.SparesQueries) (hn : 1 ≤ n) (visit : Visit σ) (q : Query)
    (map : Option Transform) (left p : Nat) :
    Leads ctx visit (walk ctx (.int n) visit map left (p + 1 : Nat)) q fun q' deeds outcome =>
      q' = q ∧ ∃ rounds cut, deeds = Round.allDeeds q n p rounds ++ cut ∧
        Course q n map left p rounds cut outcome := by
  induction left generalizing p with
  | zero => exact .silent (fun s => rfl) ⟨rfl, [], [], rfl, .finished⟩
  | succ left ih =>
    have hpage := leads_paginate hctx visit q (.int (p + 1 : Nat)) (.int n) map
    rw [pageLimit_int] at hpage
    have hstart := pageStart_int hn p
    refine hpage.onClone.bind ?_ ?_
    · rintro q deeds page ⟨rfl, own, hpaged⟩
      cases hpaged with
      | given hstart' hresults htallied hpages =>
        cases hstart.symm.trans hstart'
        set page : Page := ⟨_, _, _, _, _⟩
        have hshows : ∀ answer, Round.Shows q n map p ⟨_, _, page, answer⟩ := fun _ =>
          ⟨hresults, rfl, rfl, htallied, hpages⟩
        have hshown : Leads ctx visit (outside (visit page.documents page.info)) q
            fun q' deeds answer => q' = q ∧ deeds = [.shown page.documents page.info answer] :=
          .shown fun _ => ⟨rfl, rfl⟩
        refine hshown.bind ?_ ?_
        · rintro q _ v ⟨rfl, rfl⟩
          split
          · exact .silent (fun s => rfl) ⟨rfl, [_], [], rfl, .stop (hshows _) rfl⟩
          · next hv =>
            refine (ih (p + 1)).mono ?_
            rintro q _ outcome ⟨rfl, rounds, cut, rfl, hcourse⟩
            refine ⟨rfl, _ :: rounds, cut, ?_, hcourse.next (hshows (.ok v)) rfl hv⟩
            simp only [Round.allDeeds, Round.deeds, asks, List.cons_append, List.nil_append]
        · rintro q _ e ⟨rfl, rfl⟩
          exact ⟨rfl, [], _, rfl, .fail (.shown (hshows (.error e)) rfl)⟩
    · rintro _ deeds e ⟨rfl, own, hpaged⟩
      refine ⟨rfl, [], deeds, rfl, .fail ?_⟩
      cases hpaged with
      | refused hrefused => cases hstart.symm.trans hrefused
      | unfetched hstart' hasked =>
        cases hstart.symm.trans hstart'
        exact .unshown (hasked.trans (List.prefix_append [_] [Deed.asked _ _ (.ok [])]))
      | uncounted hstart' hresults hasked =>
        cases hstart.symm.trans hstart'
        exact .unshown (List.cons_prefix_cons.2 ⟨rfl, hasked⟩)

/-- Pages of a size, as many as it takes to hold a number of documents: each document stands on
exactly one of them, and the last one is not empty. -/
theorem windows_cover {total pages : Nat} (hpages : ∀ k, pages ≤ k ↔ total ≤ k * n) :
    (∀ i < total, ∃! p, p < pages ∧ p * n ≤ i ∧ i < (p + 1) * n) ∧
    (0 < pages → (pages - 1) * n < total) := by
  constructor
  · intro i hi
    have hend : total ≤ pages * n := (hpages pages).1 le_rfl
    have hpos : 0 < n := by
      rcases Nat.eq_zero_or_pos n with rfl | hpos
      · omega
      · exact hpos
    refine ⟨i / n, ⟨?_, ?_, ?_⟩, ?_⟩
    · exact Nat.div_lt_of_lt_mul (by rw [Nat.mul_comm]; omega)
    · exact Nat.div_mul_le_self i n
    · exact (Nat.div_lt_iff_lt_mul hpos).1 (Nat.lt_succ_self _)
    · rintro p ⟨-, hlow, hhigh⟩
      exact (Nat.div_eq_of_lt_le hlow hhigh).symm
  · intro hpos
    have hlast : ¬ pages ≤ pages - 1 := by omega
    rw [hpages] at hlast
    omega

/-- Whatever comes of a walk, the query stays as it is. -/
theorem preserves_chunk (ctx : Context σ) (visit : Visit σ) (q : Query) (limit : Value)
    (map : Option Transform) : (chunk ctx limit visit map).Preserves fun t => t.1 = q := by
  have hwalk : ∀ left page, (walk ctx limit visit map left page).Preserves fun t => t.1 = q := by
    intro left
    induction left with
    | zero => exact fun page => .pure ()
    | succ left ih =>
      intro page
      refine .bind (fun _ ht => ht) fun p => .bind (fun _ ht => ht) fun answer => ?_
      split
      · exact .pure ()
      · exact ih _
  refine .bind (.ofExcept _) fun fits => ?_
  split
  · exact .bind (fun _ ht => ht) fun _ => .bind (fun _ ht => ht) fun _ =>
      .bind (.ofExcept _) fun _ => hwalk _ _
  · exact .bind (fun _ ht => ht) fun _ => .bind (.ofExcept _) fun _ => hwalk _ _

/-- A count on a query of its own. -/
theorem exists_counted (hctx : ctx.SparesQueries) (visit : Visit σ) {total : Value} {s : σ}
    (hcount : ((count ctx).run (q, s)).1 = .ok total) :
    ∃ counted s', (onClone (count ctx)).run (q, s) = (.ok total, q, s') ∧
      Trail ctx visit s [.asked q.collection (q.appended [tally]).wire (.ok counted)] s' ∧
      tallied counted = .ok total := by
  obtain ⟨outcome, q', s', deeds, hrun, htrail, rfl, own, -, hanswered⟩ :=
    (leads_count hctx visit q).onClone s
  have houtcome : outcome = .ok total := by
    have hfirst := congrArg Prod.fst hrun
    exact hfirst.symm.trans hcount
  subst houtcome
  cases hanswered with
  | read htallied => exact ⟨_, s', hrun, htrail, htallied⟩

/-- A database that holds documents and gives the window of a pipeline that ends with one, and
otherwise their number. -/
def holding (documents : List Document) : Context (List (List Value)) :=
  { Context.sample documents fun _ => return 1 with
    execute := fun
      | ⟨_, .aggregate pipeline⟩ =>
        match pipeline.reverse with
        | .dict [(.text "$limit", .int n)] :: .dict [(.text "$skip", .int k)] :: _ =>
          return (documents.drop k.toNat).take n.toNat
        | _ => return [[(.text "_id", .null), (.text "total", .int documents.length)]]
      | _ => throw (.raised "refused") }

def threeOrders : List Document :=
  [[(.text "id", .int 1)], [(.text "id", .int 2)], [(.text "id", .int 3)]]

/-- Keeps the documents that are shown. -/
def keepShown : Visit (List (List Value)) :=
  fun documents _ => do
    modify (· ++ [documents])
    return .null

example : ((chunk (holding threeOrders) (.int 2) keepShown none).run (openQuery, [])).2.2 =
    [[.dict [(.text "id", .int 1)], .dict [(.text "id", .int 2)]],
      [.dict [(.text "id", .int 3)]]] := rfl

end DocumentMapper.Query
