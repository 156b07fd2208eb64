import DocumentMapper.Model.Store
import DocumentMapper.Proofs.Model.Cascades
import DocumentMapper.Proofs.Model.DestroyCourse

/-!
# Deleting what a query gives

The records that a query of a model gives are deleted in turn. Deleting one that was stored comes to
one request, which takes its document out or stores its mark: after the listeners that hear of it
first, and before those that hear of it afterwards and the rules. A deletion that fails ends the run
with its error, and the records behind it are not come to.

A record without an identifier of the database is passed over without a request, yet it is counted.
What is told is how many records were fetched, and so it is the number of requests exactly if every
document that was fetched has an identifier.
-/

namespace DocumentMapper

namespace Lifecycle

variable {σ : Type} (ctx : Context σ) (below : Cascade σ) (m : Model σ)

/-- The request for the document of a record by its identifier: to take it out, or to put the data
of the record in its place if the model only marks what is deleted. -/
def removal (r : Record) : Request :=
  ⟨m.collection, if m.deletion = .soft then .replaceOne [(.text "_id", r.key)] r.data false
    else .deleteOne [(.text "_id", r.key)]⟩

/-- A request that takes out the document with an identifier, or stores its mark. -/
def Takes (id : Value) (request : Request) : Prop :=
  ∃ r : Record, r.key = id ∧ request = removal m r

/-- Deletions leave the identifiers of records alone until their documents go: neither the time of
the deletion nor a listener that hears of it first is written in their place. -/
structure SparesKeys : Prop where
  column : m.deletedAt ≠ .text "_id"
  listeners : ∀ id s ls s', (ctx.listeners id .deleting).run s = (.ok ls, s') → ∀ l ∈ ls,
    ∀ key, (l.onRecord none).Preserves fun t => t.1.key = key

/-- The deletion of a record succeeds, and a request takes its document out on the way. -/
def Goes (r : Record) (s : σ) (request : Request) (s' : σ) : Prop :=
  ∃ early late r₁ s₁ answer s₂ r',
    Phase.Follows (Removal.act ctx below (ctx.model r.model)) (leading ctx (ctx.model r.model))
      (r, s) early .finished (r₁, s₁) ∧
    request = removal (ctx.model r.model) r₁ ∧
    (ctx.execute request).run s₁ = (.ok answer, s₂) ∧
    Phase.Follows (Removal.act ctx below (ctx.model r.model))
      (heeding ctx (ctx.model r.model) .deleted ++ cleaning (ctx.model r.model))
      (r₁, s₂) late .finished (r', s')

/-- The deletion of a record that was stored fails at one of its steps. -/
def Breaks (r : Record) (s : σ) (e : Error) (s' : σ) : Prop :=
  r.key.isTruthy = true ∧ ∃ steps t r',
    Phase.Follows (Removal.act ctx below (ctx.model r.model)) (destroying ctx (ctx.model r.model))
      (r, s) steps (.failed e) t ∧
    Ends ctx (.error e, t) (.error e, r', s')

/-- Records are deleted one after another, none of them with an error. The requests are those that
take documents out, in turn. -/
inductive Clears : σ → List Record → List Request → σ → Prop
  | nil {s : σ} : Clears s [] [] s
  | spared {s s' : σ} {r : Record} {rest : List Record} {requests : List Request} :
      r.key.isTruthy = false → Clears s rest requests s' → Clears s (r :: rest) requests s'
  | gone {s s₁ s' : σ} {r : Record} {rest : List Record} {request : Request}
      {requests : List Request} :
      r.key.isTruthy = true → Goes ctx below r s request s₁ → Clears s₁ rest requests s' →
      Clears s (r :: rest) (request :: requests) s'

/-- Those of some records that were stored. -/
def keyed (rs : List Record) : List Record :=
  rs.filter fun r => r.key.isTruthy

variable {ctx below m} {r r' : Record} {s s₁ s' : σ} {t t' : Record × σ} {e : Error}
  {request : Request} {requests : List Request} {rs rest : List Record}

/-! ## One deletion -/

theorem key_of_field {id : Value} (h : (Value.dict r.data).field "_id" = .ok id) : r.key = id := by
  unfold Record.key Document.fieldOrNull
  cases hfield : r.data.field? "_id" with
  | none =>
    rw [Value.field, hfield] at h
    cases h
  | some v =>
    rw [Value.field, hfield] at h
    exact Except.ok.inj h

/-- Taking the document of a record out is one request that is answered. -/
theorem exists_answer_of_removes (h : Removes ctx m t t') :
    t'.1 = t.1 ∧ ∃ answer, (ctx.execute (removal m t.1)).run t.2 = (.ok answer, t'.2) := by
  cases h with
  | @marked r s s' id n hsoft hid hreplace =>
    have hremoval : removal m r = ⟨m.collection, .replaceOne [(.text "_id", id)] r.data false⟩ := by
      rw [removal, if_pos hsoft, key_of_field hid]
    rw [hremoval]
    exact ⟨rfl, n, hreplace⟩
  | @deleted r s s' id n hhard hid hdelete =>
    have hremoval : removal m r = ⟨m.collection, .deleteOne [(.text "_id", id)]⟩ := by
      rw [removal, if_neg hhard, key_of_field hid]
    rw [hremoval]
    exact ⟨rfl, n, hdelete⟩

theorem exists_goes {steps : List (Removal σ)}
    (h : Phase.Follows (Removal.act ctx below (ctx.model r.model))
      (destroying ctx (ctx.model r.model)) (r, s) steps .finished (r', s')) :
    ∃ request, Goes ctx below r s request s' := by
  unfold destroying at h
  obtain ⟨-, hending⟩ | ⟨early, last, ⟨r₁, s₁⟩, rfl, hearly, hlast⟩ := h.append
  · exact absurd rfl hending
  · cases hlast with
    | @one _ t₂ _ _ _ late _ hremove hlate =>
      obtain ⟨r₂, s₂⟩ := t₂
      obtain ⟨rfl, answer, hanswer⟩ := exists_answer_of_removes (removes_of_act hremove)
      exact ⟨_, early, late, r₂, s₁, answer, s₂, r', hearly, rfl, hanswer, hlate⟩

/-- What the deletion of a record can come to. -/
theorem destroy_cases (hlog : ∀ entry s, ∃ s', (ctx.log entry).run s = (.ok (), s'))
    (below : Cascade σ) (r : Record) (s : σ) :
    (r.key.isTruthy = false ∧ (destroy ctx below).run (r, s) = (.ok (), r, s)) ∨
    (r.key.isTruthy = true ∧ ∃ request r' s',
      (destroy ctx below).run (r, s) = (.ok (), r', s') ∧ Goes ctx below r s request s') ∨
    ∃ e r' s', (destroy ctx below).run (r, s) = (.error e, r', s') ∧ Breaks ctx below r s e s' := by
  cases hkey : r.key.isTruthy with
  | false =>
    refine .inl ⟨rfl, ?_⟩
    unfold destroy
    rw [run_bind_record, if_neg (by simp [hkey])]
    rfl
  | true =>
    obtain ⟨steps, ending, t, hfollows, hperform⟩ := Phase.exists_follows
      (Removal.act ctx below (ctx.model r.model)) (destroying ctx (ctx.model r.model)) (r, s)
    have hends := ends_destroy below hlog rfl hkey s
    rw [hperform] at hends
    cases ending with
    | finished =>
      obtain ⟨request, hgoes⟩ := exists_goes hfollows
      exact .inr (.inl ⟨rfl, request, t.1, t.2, hends, hgoes⟩)
    | stopped =>
      obtain ⟨test, hmem⟩ := hfollows.exists_only
      exact absurd hmem (only_notMem_destroying test)
    | failed e =>
      obtain ⟨s', hrun, hlogged⟩ := hends
      exact .inr (.inr ⟨e, t.1, s', hrun, hkey, steps, t, t.1, hfollows, s', rfl, hlogged⟩)

/-! ## The identifiers in the requests -/

theorem preserves_key_stamp {column : Value} (hcolumn : column ≠ .text "_id")
    (time : Calendar.Moment) (key : Value) :
    (stamp column time : Step σ Unit).Preserves fun t => t.1.key = key := by
  refine preserves_stamp_of (P := fun r => r.key = key) fun r hr => ?_
  rw [← hr, Record.key, Record.key, Document.fieldOrNull, Document.fieldOrNull,
    Document.field?_put_of_ne hcolumn]

theorem all_leading (hspares : SparesKeys ctx m) (key : Value) :
    ∀ phase ∈ leading ctx m, phase.All fun step =>
      (Removal.act ctx below m step).Preserves fun t => t.1.key = key := by
  have hrecord : record.Preserves fun t : Record × σ => t.1.key = key := fun _ ht => ht
  have houtside : ∀ {α : Type} (act : Action σ α),
      (outside act).Preserves fun t => t.1.key = key :=
    preserves_outside_of fun r => r.key = key
  intro phase hphase
  simp only [leading, condemning, List.mem_cons, List.mem_append, List.mem_map] at hphase
  rcases hphase with rfl | ⟨step, hstep, rfl⟩ | ⟨step, hstep, rfl⟩ | hphase
  · exact houtside _
  · rw [eq_of_mem_marks hstep]
    exact (houtside _).bind fun _ => preserves_key_stamp hspares.column _ key
  · rw [eq_of_mem_discards hstep]
    exact hrecord.bind fun _ => (houtside _).bind fun _ => (houtside _).bind fun _ => .pure ()
  · obtain ⟨id, -, hphase⟩ := List.mem_flatMap.1 hphase
    rw [List.mem_singleton] at hphase
    subst hphase
    intro t found t' hfound step hstep
    obtain ⟨ls, t₁, hls, hfound⟩ := Action.run_bind_eq_ok.1 hfound
    cases hfound
    obtain ⟨hheard, -⟩ := Action.run_second_eq_iff.1 hls
    obtain ⟨l, hl, rfl⟩ := List.mem_map.1 hstep
    exact hspares.listeners id t.2 ls _ hheard l hl key

/-- The record keeps its identifier until its document goes. -/
theorem key_of_follows_leading (hspares : SparesKeys ctx m) {steps : List (Removal σ)}
    {ending : Ending}
    (h : Phase.Follows (Removal.act ctx below m) (leading ctx m) (r, s) steps ending t) :
    t.1.key = r.key := by
  obtain ⟨whole, hfull, hinitial, -⟩ := h.exists_full
  refine h.preserves (P := fun t => t.1.key = r.key) ?_ ?_ rfl
  · exact fun step hstep => hfull.forall (all_leading hspares r.key) step (hinitial.subset hstep)
  · intro find hfind
    have hheeding : .each find ∈ heeding ctx m .deleting := by
      simpa [leading, condemning] using hfind
    obtain ⟨id, -, hfind⟩ := List.mem_flatMap.1 hheeding
    rw [List.mem_singleton] at hfind
    cases hfind
    exact (preserves_outside_of (fun r' : Record => r'.key = r.key) _).bind fun _ => .pure _

theorem Goes.takes (h : Goes ctx below r s request s')
    (hspares : SparesKeys ctx (ctx.model r.model)) :
    Takes (ctx.model r.model) r.key request := by
  obtain ⟨early, late, r₁, s₁, answer, s₂, r', hearly, rfl, -⟩ := h
  exact ⟨r₁, key_of_follows_leading hspares hearly, rfl⟩

/-! ## Deletions in turn -/

theorem keyed_cons_of_pos (hkey : r.key.isTruthy = true) (rest : List Record) :
    keyed (r :: rest) = r :: keyed rest :=
  List.filter_cons_of_pos (p := fun r : Record => r.key.isTruthy) hkey

theorem keyed_cons_of_neg (hkey : r.key.isTruthy = false) (rest : List Record) :
    keyed (r :: rest) = keyed rest :=
  List.filter_cons_of_neg (by simp [hkey])

/-- There are as many requests as there are records that were stored. -/
theorem Clears.length_eq (h : Clears ctx below s rs requests s') :
    requests.length = (keyed rs).length := by
  induction h with
  | nil => rfl
  | spared hkey _ ih => rw [ih, keyed_cons_of_neg hkey]
  | gone hkey _ _ ih => rw [keyed_cons_of_pos hkey, List.length_cons, List.length_cons, ih]

theorem Clears.length_eq_iff (h : Clears ctx below s rs requests s') :
    rs.length = requests.length ↔ ∀ r ∈ rs, r.key.isTruthy = true := by
  rw [h.length_eq, keyed, eq_comm, List.length_filter_eq_length_iff]

/-- The requests name the identifiers of the records that were stored, in their order. -/
theorem Clears.takes {name : String} (h : Clears ctx below s rs requests s')
    (hname : ∀ r ∈ rs, r.model = name) (hspares : SparesKeys ctx (ctx.model name)) :
    List.Forall₂ (fun r request => Takes (ctx.model name) r.key request) (keyed rs) requests := by
  induction h with
  | nil => exact .nil
  | spared hkey _ ih =>
    rw [keyed_cons_of_neg hkey]
    exact ih (List.forall_mem_cons.1 hname).2
  | gone hkey hgoes _ ih =>
    obtain ⟨rfl, hrest⟩ := List.forall_mem_cons.1 hname
    rw [keyed_cons_of_pos hkey]
    exact .cons (hgoes.takes hspares) (ih hrest)

end Lifecycle

namespace Store

open Lifecycle

variable {σ : Type} {ctx : Context σ} {below : Cascade σ} {r r' : Record} {s s₁ s' : σ}
  {q q' : Query} {e : Error} {name : String} {docs treated : List Document} {c : Cascade σ}

theorem run_destroyAll_cons_ok (h : c.destroy.run (r, s) = (.ok (), r', s₁))
    (rest : List Record) : (destroyAll c (r :: rest)).run s = (destroyAll c rest).run s₁ := by
  rw [destroyAll, Action.run_bind]
  simp only [Action.alongside, h]
  rfl

theorem run_destroyAll_cons_error (h : c.destroy.run (r, s) = (.error e, r', s₁))
    (rest : List Record) : (destroyAll c (r :: rest)).run s = (.error e, s₁) := by
  rw [destroyAll, Action.run_bind]
  simp only [Action.alongside, h]
  rfl

/-- Deleting records in turn goes through all of them, or as far as the first deletion that
fails. -/
theorem destroyAll_cases (hlog : ∀ entry s, ∃ s', (ctx.log entry).run s = (.ok (), s'))
    (below : Cascade σ) (rs : List Record) (s : σ) :
    (∃ requests s', Clears ctx below s rs requests s' ∧
      (destroyAll (above ctx below) rs).run s = (.ok (), s')) ∨
    ∃ before r after requests s₁ e s', rs = before ++ r :: after ∧
      Clears ctx below s before requests s₁ ∧ Breaks ctx below r s₁ e s' ∧
      (destroyAll (above ctx below) rs).run s = (.error e, s') := by
  induction rs generalizing s with
  | nil => exact .inl ⟨[], s, .nil, rfl⟩
  | cons r rest ih =>
    obtain ⟨hkey, hrun⟩ | ⟨hkey, request, r', s₁, hrun, hgoes⟩ | ⟨e, r', s', hrun, hbreaks⟩ :=
      destroy_cases hlog below r s
    · have hrest := run_destroyAll_cons_ok (c := above ctx below) hrun rest
      obtain ⟨requests, s', hclears, hall⟩ |
        ⟨before, r₁, after, requests, s₁, e, s', rfl, hclears, hbreaks, hall⟩ := ih s
      · exact .inl ⟨requests, s', .spared hkey hclears, hrest.trans hall⟩
      · exact .inr ⟨r :: before, r₁, after, requests, s₁, e, s', rfl, .spared hkey hclears,
          hbreaks, hrest.trans hall⟩
    · have hrest := run_destroyAll_cons_ok (c := above ctx below) hrun rest
      obtain ⟨requests, s', hclears, hall⟩ |
        ⟨before, r₁, after, requests, s₂, e, s', rfl, hclears, hbreaks, hall⟩ := ih s₁
      · exact .inl ⟨request :: requests, s', .gone hkey hgoes hclears, hrest.trans hall⟩
      · exact .inr ⟨r :: before, r₁, after, request :: requests, s₂, e, s', rfl,
          .gone hkey hgoes hclears, hbreaks, hrest.trans hall⟩
    · exact .inr ⟨[], r, rest, [], s, e, s', rfl, .nil, hbreaks,
        run_destroyAll_cons_error (c := above ctx below) hrun rest⟩

/-! ## What was fetched -/

theorem ofText?_empty : ObjectId.ofText? "" = none := by decide

/-- A record has an identifier if its document has one. -/
theorem isTruthy_key_ofData (name : String) (d : Document) :
    (Record.ofData name d).key.isTruthy = (d.fieldOrNull "_id").isTruthy := by
  unfold Record.ofData Record.key Record.identified
  split
  · next text hfield =>
    split
    · next id hid =>
      have htext : text ≠ "" := by
        rintro rfl
        cases ofText?_empty.symm.trans hid
      rw [Document.fieldOrNull_putField_self, Document.fieldOrNull, hfield]
      simp [Value.isTruthy, htext]
    · rfl
  · rfl

/-- The documents of a query with what was joined to them transformed. -/
def prepared (q : Query) (docs : List Document) : Except Error (List Document) :=
  docs.mapM fun d => Query.transformed d q.transforms

/-- A query of a model makes a record of every document. -/
theorem results_model (hsource : q.source = .model name) (docs : List Document) :
    q.results none docs =
      (prepared q docs).map (·.map fun d => (Record.ofData name d).toValue) := by
  have hmap : ∀ d, Query.standardMap q.source d = pure (Record.ofData name d).toValue := by
    intro d
    rw [hsource]
    rfl
  unfold Query.results prepared
  simp only [hmap, List.mapM_pure]
  cases docs.mapM fun d => Query.transformed d q.transforms <;> rfl

theorem filterMap_ofValue? (rs : List Record) :
    (rs.map Record.toValue).filterMap Record.ofValue? = rs := by
  rw [List.filterMap_map]
  exact List.filterMap_some

theorem run_fetch (hexecute : (Query.execute ctx).run (q, s) = (.ok docs, q', s₁)) :
    (Query.fetch ctx none).run (q, s) = (q'.results none docs, q', s₁) := by
  rw [Query.fetch, Action.run_bind_ok hexecute]
  rfl

theorem run_deleteMatching_error (h : (Query.fetch ctx none).run (q, s) = (.error e, q', s₁)) :
    (deleteMatching ctx c).run (q, s) = (.error e, q', s₁) :=
  Action.run_bind_error h

/-- Deleting what a query gives tells how many records there are, if none of them fails. -/
theorem run_deleteMatching {rs : List Record} {outcome : Except Error Unit}
    (h : (Query.fetch ctx none).run (q, s) = (.ok (rs.map Record.toValue), q', s₁))
    (hall : (destroyAll c rs).run s₁ = (outcome, s')) :
    (deleteMatching ctx c).run (q, s) = (outcome.map fun _ => (rs.length : Int), q', s') := by
  rw [deleteMatching, Action.run_bind_ok h]
  simp only [filterMap_ofValue?]
  have houtside : (Query.outside (destroyAll c rs)).run (q', s₁) = (outcome, q', s') :=
    Action.run_second hall q'
  cases outcome with
  | error e => exact Action.run_bind_error houtside
  | ok done => rw [Action.run_bind_ok houtside]; rfl

/-- Deleting what a query gives fails as fetching it does. Otherwise the records of the documents
are deleted in turn, up to the first deletion that fails: the ones before it are gone, the ones
after it are not come to, and its error is the one of the whole. When none of them fails, what is
told is how many documents there are. That is the number of the requests which took documents out
exactly if every document has an identifier, for nothing is asked for one without. The requests name
the identifiers of the documents in their order, unless these are changed before. -/
theorem deleteMatching_reports_iff
    (hlog : ∀ entry s, ∃ s', (ctx.log entry).run s = (.ok (), s')) (below : Cascade σ) (q : Query)
    (s : σ) :
    (∀ e t, (Query.execute ctx).run (q, s) = (.error e, t) →
      (deleteMatching ctx (above ctx below)).run (q, s) = (.error e, t)) ∧
    ∀ docs q' s₁ name, (Query.execute ctx).run (q, s) = (.ok docs, q', s₁) →
      q'.source = .model name →
      (∀ e, prepared q' docs = .error e →
        (deleteMatching ctx (above ctx below)).run (q, s) = (.error e, q', s₁)) ∧
      ∀ treated, prepared q' docs = .ok treated →
        (∃ requests s', Clears ctx below s₁ (treated.map (Record.ofData name)) requests s' ∧
          (deleteMatching ctx (above ctx below)).run (q, s) = (.ok treated.length, q', s') ∧
          (treated.length = requests.length ↔
            ∀ d ∈ treated, (d.fieldOrNull "_id").isTruthy = true) ∧
          (SparesKeys ctx (ctx.model name) →
            List.Forall₂ (fun r request => Takes (ctx.model name) r.key request)
              (keyed (treated.map (Record.ofData name))) requests)) ∨
        ∃ before d after requests s₂ e s', treated = before ++ d :: after ∧
          Clears ctx below s₁ (before.map (Record.ofData name)) requests s₂ ∧
          Breaks ctx below (Record.ofData name d) s₂ e s' ∧
          (deleteMatching ctx (above ctx below)).run (q, s) = (.error e, q', s') := by
  refine ⟨fun e t hexecute => ?_, fun docs q' s₁ name hexecute hsource => ⟨?_, ?_⟩⟩
  · exact run_deleteMatching_error (Action.run_bind_error hexecute)
  · intro e hprepared
    refine run_deleteMatching_error ?_
    rw [run_fetch hexecute, results_model hsource, hprepared]
    rfl
  · intro treated hprepared
    have hfetch : (Query.fetch ctx none).run (q, s) =
        (.ok ((treated.map (Record.ofData name)).map Record.toValue), q', s₁) := by
      rw [run_fetch hexecute, results_model hsource, hprepared, List.map_map]
      rfl
    obtain ⟨requests, s', hclears, hall⟩ |
      ⟨before, r, after, requests, s₂, e, s', hsplit, hclears, hbreaks, hall⟩ :=
      destroyAll_cases hlog below (treated.map (Record.ofData name)) s₁
    · refine .inl ⟨requests, s', hclears, ?_, ?_, fun hspares => ?_⟩
      · rw [run_deleteMatching hfetch hall, List.length_map]
        rfl
      · have hlength := hclears.length_eq_iff
        rw [List.length_map, List.forall_mem_map] at hlength
        simpa only [isTruthy_key_ofData] using hlength
      · exact hclears.takes (List.forall_mem_map.2 fun _ _ => rfl) hspares
    · obtain ⟨first, last, rfl, rfl, hlast⟩ := List.map_eq_append_iff.1 hsplit
      obtain ⟨d, after, rfl, rfl, -⟩ := List.map_eq_cons_iff.1 hlast
      exact .inr ⟨first, d, after, requests, s₂, e, s', rfl, hclears, hbreaks,
        run_deleteMatching hfetch hall⟩

/-! ## Invoices -/

/-- What a database answers that finds some documents whatever it is asked for and takes
everything. -/
def found (documents : List Document) : (op : Operation) → op.Answer
  | .aggregate _ => documents
  | op => op.nothing

/-- Such a database of invoices, with a journal of what it is asked for. -/
def ledger (documents : List Document) : Context (List Request) :=
  { Context.journaling with
    model := fun name => { (default : Model (List Request)) with
      toSchema := { Schema.plain name with collection := "invoices" } }
    execute := fun r => do
      modify (· ++ [r])
      return found documents r.operation }

def invoices : Query :=
  .fresh "invoices" (.model "Invoice")

def invoice (id : Int) : Document :=
  [(.text "_id", .int id), (.text "total", .int 3)]

/-- The sum of all invoices, as a group gives it. -/
def sum : Document :=
  [(.text "_id", .null), (.text "total", .int 6)]

theorem sparesKeys_ledger (documents : List Document) (name : String) :
    SparesKeys (ledger documents) ((ledger documents).model name) where
  column h := absurd (Value.text.inj h) (by decide)
  listeners id s ls s' h l hl := by
    cases h
    cases hl

theorem eq_deleteOne_of_takes {documents : List Document} {name : String} {id : Value}
    {request : Request} (h : Takes ((ledger documents).model name) id request) :
    request = ⟨"invoices", .deleteOne [(.text "_id", id)]⟩ := by
  obtain ⟨r, rfl, rfl⟩ := h
  rfl

/-- Two invoices are deleted with two requests. -/
theorem deleteMatching_reports_iff_invoices :
    (∀ entry s, ∃ s', ((ledger [invoice 7, invoice 8]).log entry).run s = (.ok (), s')) ∧
    ∃ journal,
      Clears (ledger [invoice 7, invoice 8]) (cascade (ledger []) 0)
        [⟨"invoices", .aggregate []⟩]
        [.ofData "Invoice" (invoice 7), .ofData "Invoice" (invoice 8)]
        [⟨"invoices", .deleteOne [(.text "_id", .int 7)]⟩,
          ⟨"invoices", .deleteOne [(.text "_id", .int 8)]⟩] journal ∧
      (deleteMatching (ledger [invoice 7, invoice 8])
        (above (ledger [invoice 7, invoice 8]) (cascade (ledger []) 0))).run (invoices, []) =
        (.ok 2, invoices, journal) := by
  have hlog : ∀ entry s, ∃ s', ((ledger [invoice 7, invoice 8]).log entry).run s = (.ok (), s') :=
    fun _ s => ⟨s, rfl⟩
  obtain ⟨-, hfetched⟩ := deleteMatching_reports_iff hlog (cascade (ledger []) 0) invoices []
  obtain ⟨-, hprepared⟩ := hfetched [invoice 7, invoice 8] invoices
    [⟨"invoices", .aggregate []⟩] "Invoice" rfl rfl
  refine ⟨hlog, ?_⟩
  obtain ⟨requests, journal, hclears, hrun, -, htakes⟩ |
    ⟨before, d, after, requests, s₂, e, journal, -, -, -, hrun⟩ := hprepared _ rfl
  · have hboth := htakes (sparesKeys_ledger _ _)
    cases hboth with
    | cons hfirst hrest =>
      cases hrest with
      | cons hsecond hnone =>
        cases hnone
        rw [eq_deleteOne_of_takes hfirst, eq_deleteOne_of_takes hsecond] at hclears
        exact ⟨journal, hclears, hrun⟩
  · have hok : ∃ journal, (deleteMatching (ledger [invoice 7, invoice 8])
        (above (ledger [invoice 7, invoice 8]) (cascade (ledger []) 0))).run (invoices, []) =
        (.ok 2, invoices, journal) := ⟨_, rfl⟩
    obtain ⟨journal', hok⟩ := hok
    cases hrun.symm.trans hok

/-- The sum of all invoices is no document that could be deleted. Nothing but the sum is asked for,
and one document is told to be deleted. -/
theorem not_reports_sum :
    (deleteMatching (ledger [sum]) (above (ledger [sum]) (cascade (ledger [sum]) 0))).run
      (invoices, []) = (.ok 1, invoices, [⟨"invoices", .aggregate []⟩]) := rfl

end Store

end DocumentMapper
