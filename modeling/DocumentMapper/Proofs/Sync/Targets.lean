import DocumentMapper.Proofs.Model.Saving
import DocumentMapper.Proofs.Procedure
import DocumentMapper.Proofs.Query.Matching
import DocumentMapper.Proofs.Sync.Places
import DocumentMapper.Proofs.Sync.Transition

/-!
# What the targets of a rule hold

The targets of a rule are made of documents that the database finds by the identity of the record.
What it finds holds a copy in one of the columns, with two exceptions. An identity that is an array
is found by each of its elements. And a record without an identity finds every document in which
there is nothing in one of the columns.
-/

namespace DocumentMapper.Sync

variable {id v c : Value} {doc d : Document} {column : String} {columns : List String} {p : Path}
  {found : Option Value}

/-- A document holds a copy in a column, perhaps inside of arrays. -/
def HoldsCopy (id : Value) (doc : Document) (column : String) : Prop :=
  ∃ c, Path.Leads (Path.ofText column) (.dict doc) (some c) ∧ ∃ e ∈ held c, IsCopy id e

/-- A document holds a dictionary in a column whose identity is an array with another one in it. -/
def HoldsAmong (id : Value) (doc : Document) (column : String) : Prop :=
  ∃ c, Path.Leads (Path.ofText column) (.dict doc) (some c) ∧ ∃ d : Document, .dict d ∈ held c ∧
    ∃ items, d.field? "id" = some (.list items) ∧ ∃ e ∈ items, e.equal id = true

/-- A column leads to nothing in a document, or to something that has no fields. -/
def HoldsNothing (doc : Document) (column : String) : Prop :=
  Path.Leads (Path.ofText column) (.dict doc) none ∨
    ∃ c, Path.Leads (Path.ofText column) (.dict doc) (some c) ∧ c.isDict = false ∧
      c.isList = false

/-! ## Finding an identity -/

/-- What a name that is no position leads to. -/
theorem leads_name {key : String} (hkey : Path.position? key = none) :
    Path.Leads [key] v found ↔
      (∃ d : Document, .dict d ∈ held v ∧ found = d.field? key) ∨
        (v.isDict = false ∧ v.isList = false ∧ found = none) := by
  cases v with
  | dict d => simp [Path.leads_dict_iff, held, Value.isDict]
  | list items =>
    constructor
    · intro h
      cases h with
      | element hmem h => exact .inl ⟨_, hmem, Path.leads_dict_iff.1 h⟩
      | position hi _ _ => cases hkey.symm.trans hi
      | beyond _ hlist => cases hlist
    · rintro (⟨d, hmem, rfl⟩ | ⟨-, hlist, -⟩)
      · exact .element hmem (Path.leads_dict d key)
      · cases hlist
  | _ =>
    constructor
    · intro h
      cases h with
      | beyond hdict hlist => exact .inr ⟨hdict, hlist, rfl⟩
    · rintro (⟨d, hmem, -⟩ | ⟨hdict, hlist, rfl⟩)
      · cases List.mem_singleton.1 hmem
      · exact .beyond hdict hlist

/-- What has the identity that is asked for is a copy, or it has an array with it. -/
theorem equals_field_iff : Path.Equals id (d.field? "id") ↔
    IsCopy id (.dict d) ∨
      ∃ items, d.field? "id" = some (.list items) ∧ ∃ e ∈ items, e.equal id = true := by
  rw [isCopy_dict, Document.fieldOrNull]
  cases d.field? "id" with
  | none =>
    constructor
    · rintro rfl
      exact .inl rfl
    · rintro (hequal | ⟨items, h, -⟩)
      · by_contra hid
        exact Bool.false_ne_true ((equal_null_eq_false hid).symm.trans hequal)
      · cases h
  | some w => simp [Path.Equals]

/-- The documents that are found by an identity below a column. -/
theorem finds_iff : Path.Finds (Path.ofText (column ++ ".id")) id doc ↔
    HoldsCopy id doc column ∨ HoldsAmong id doc column ∨
      (id = .null ∧ HoldsNothing doc column) := by
  have hkey : Path.position? "id" = none := by decide
  have hpath : Path.ofText (column ++ ".id") = Path.ofText column ++ ["id"] := by
    have hpoint : column ++ ".id" = column ++ "." ++ "id" := by rw [String.append_assoc]; rfl
    rw [hpoint, Path.ofText_append]
    rfl
  rw [hpath]
  constructor
  · rintro ⟨found, hleads, hequals⟩
    obtain ⟨c, hc, hlast⟩ | ⟨hnone, rfl⟩ := Path.leads_append.1 hleads
    · obtain ⟨d, hmem, rfl⟩ | ⟨hdict, hlist, rfl⟩ := (leads_name hkey).1 hlast
      · obtain hcopy | hamong := equals_field_iff.1 hequals
        · exact .inl ⟨c, hc, _, hmem, hcopy⟩
        · exact .inr (.inl ⟨c, hc, d, hmem, hamong⟩)
      · exact .inr (.inr ⟨hequals, .inr ⟨c, hc, hdict, hlist⟩⟩)
    · exact .inr (.inr ⟨hequals, .inl hnone⟩)
  · rintro (⟨c, hc, e, hmem, d, rfl, hcopy⟩ | ⟨c, hc, d, hmem, hamong⟩ |
      ⟨rfl, hnone | ⟨c, hc, hdict, hlist⟩⟩)
    · refine ⟨_, Path.leads_append.2 (.inl ⟨c, hc, (leads_name hkey).2 (.inl ⟨d, hmem, rfl⟩)⟩), ?_⟩
      exact equals_field_iff.2 (.inl (isCopy_dict.2 hcopy))
    · refine ⟨_, Path.leads_append.2 (.inl ⟨c, hc, (leads_name hkey).2 (.inl ⟨d, hmem, rfl⟩)⟩), ?_⟩
      exact equals_field_iff.2 (.inr hamong)
    · exact ⟨none, Path.leads_append.2 (.inr ⟨hnone, rfl⟩), rfl⟩
    · have hlast := (leads_name hkey).2 (.inr ⟨hdict, hlist, rfl⟩)
      exact ⟨none, Path.leads_append.2 (.inl ⟨c, hc, hlast⟩), rfl⟩

/-! ## The query of a rule -/

/-- What the query for the targets of a rule asks for: the identity of the record in any column. -/
def condition (columns : List String) (id : Value) : Document :=
  .ofEntries (columns.map fun column => (.text (column ++ ".id"), id))

theorem mem_condition {e : Value × Value} : e ∈ condition columns id ↔
    ∃ column ∈ columns, e = (.text (column ++ ".id"), id) := by
  have hagree : Document.Agree (columns.map fun column => (.text (column ++ ".id"), id)) := by
    intro a ha b hb hsame
    obtain ⟨column, -, rfl⟩ := List.mem_map.1 ha
    obtain ⟨other, -, rfl⟩ := List.mem_map.1 hb
    exact Prod.ext (Value.same_text.1 hsame) rfl
  rw [condition, Document.mem_ofEntries_of_agree hagree, List.mem_map]
  exact exists_congr fun column => and_congr_right fun _ => eq_comm

theorem passesAny_condition_iff : Query.PassesAny (Query.anyOf (condition columns id)) doc ↔
    ∃ column ∈ columns, HoldsCopy id doc column ∨ HoldsAmong id doc column ∨
      (id = .null ∧ HoldsNothing doc column) := by
  rw [Query.passesAny_anyOf]
  constructor
  · rintro ⟨e, he, path, hpath, hfinds⟩
    obtain ⟨column, hmem, rfl⟩ := mem_condition.1 he
    cases hpath
    exact ⟨column, hmem, finds_iff.1 hfinds⟩
  · rintro ⟨column, hmem, hholds⟩
    exact ⟨_, mem_condition.2 ⟨column, hmem, rfl⟩, _, rfl, finds_iff.2 hholds⟩

variable {σ : Type} {ctx : Context σ} {rule : Rule σ} {r : Record} {s s' : σ}

/-- The query of a rule asks for the identity of the record in any of its columns and leaves the
rest to the refinement of the rule. -/
theorem targetsQuery_eq (ctx : Context σ) (rule : Rule σ) (r : Record) :
    targetsQuery ctx rule r = (do
      let q ← Finder.query ctx (ctx.model rule.target)
      let wanted := Stage.filter (Query.anyOf (condition rule.columns r.id))
      let (outcome, q) ← Action.alongside { q with stages := q.stages ++ [wanted] }
        (rule.refiner.getD (return))
      Action.ofExcept outcome
      return q) :=
  rfl

theorem run_launch_eq_ok {α : Type} {q : Query} {act : Query.Run σ α} {a : α} :
    (q.launch act).run s = (.ok a, s') ↔ ∃ q', act.run (q, s) = (.ok a, q', s') := by
  have hlaunch : (q.launch act).run s = ((act.run (q, s)).1, (act.run (q, s)).2.2) := rfl
  rw [hlaunch]
  rcases act.run (q, s) with ⟨outcome, q', s₁⟩
  constructor
  · intro h
    cases h
    exact ⟨q', rfl⟩
  · rintro ⟨q'', h⟩
    cases h
    rfl

/-- What a query gives is made of the documents that the database gives for its pipeline. -/
theorem exists_of_fetch {q q' : Query} {vs : List Value}
    (h : (Query.fetch ctx none).run (q, s) = (.ok vs, q', s')) :
    ∃ s₁ docs, (ctx.request q'.collection (.aggregate q'.wire)).run s₁ = (.ok docs, s') ∧
      q'.results none docs = .ok vs := by
  unfold Query.fetch at h
  obtain ⟨docs, ⟨q₁, s₁⟩, hexecute, h⟩ := Action.run_bind_eq_ok.1 h
  obtain ⟨q₂, t, hcurrent, hcheck⟩ := Action.run_bind_eq_ok.1 h
  cases hcurrent
  obtain ⟨hresults, hstate⟩ := Prod.mk.inj hcheck
  cases hstate
  unfold Query.execute at hexecute
  obtain ⟨⟨⟩, t₁, -, hexecute⟩ := Action.run_bind_eq_ok.1 hexecute
  obtain ⟨⟨⟩, ⟨q₂, s₂⟩, -, hexecute⟩ := Action.run_bind_eq_ok.1 hexecute
  obtain ⟨q₃, t₂, hcurrent, hrequest⟩ := Action.run_bind_eq_ok.1 hexecute
  cases hcurrent
  obtain ⟨hsent, rfl⟩ := Action.run_second_eq_iff.1 hrequest
  exact ⟨s₂, docs, hsent, hresults⟩

/-- A record that a query gives is made of one of the documents, with what was joined to it
transformed. -/
theorem exists_of_mem_results {q : Query} {docs : List Document} {vs : List Value} {t : Record}
    (h : q.results none docs = .ok vs) (ht : t ∈ vs.filterMap Record.ofValue?) :
    ∃ doc ∈ docs, ∃ name d, Query.transformed doc q.transforms = .ok d ∧ t = .ofData name d := by
  obtain ⟨ds, hds, h⟩ := Outcome.bind_eq_ok.1 h
  obtain ⟨v, hv, hrecord⟩ := List.mem_filterMap.1 ht
  obtain ⟨d, hd, hmap⟩ := Outcome.exists_of_mem_mapM h hv
  obtain ⟨doc, hdoc, htransformed⟩ := Outcome.exists_of_mem_mapM hds hd
  refine ⟨doc, hdoc, ?_⟩
  simp only [Query.standardMap] at hmap
  split at hmap
  · next name _ =>
    cases hmap
    cases hrecord
    exact ⟨name, d, htransformed, rfl⟩
  · cases hmap
    cases hrecord

theorem exists_of_search {found : List Record}
    (h : (search ctx rule r).run s = (.ok found, s')) :
    ∃ (q : Query) (s₁ : σ) (docs : List Document),
      (ctx.request q.collection (.aggregate q.wire)).run s₁ = (.ok docs, s') ∧
      ∀ t ∈ found, ∃ doc ∈ docs, ∃ name d,
        Query.transformed doc q.transforms = .ok d ∧ t = .ofData name d := by
  unfold search at h
  obtain ⟨q₀, s₀, -, h⟩ := Action.run_bind_eq_ok.1 h
  obtain ⟨vs, s₁, hlaunch, h⟩ := Action.run_bind_eq_ok.1 h
  cases h
  obtain ⟨q, hfetch⟩ := run_launch_eq_ok.1 hlaunch
  obtain ⟨s₁, docs, hsent, hresults⟩ := exists_of_fetch hfetch
  exact ⟨q, s₁, docs, hsent, fun t ht => exists_of_mem_results hresults ht⟩

/-! ## What becomes of the targets -/

/-- A fan-out treats its targets and nothing else. -/
theorem run_fanOut_congr {policy : Policy} {t t' : Treatment σ} {targets : List Record}
    (hreport : t'.report = t.report) (haborted : t'.aborted = t.aborted)
    (h : ∀ target ∈ targets, ∀ s, t'.treat.run (target, s) = t.treat.run (target, s)) (s : σ) :
    (fanOut policy t' targets).run s = (fanOut policy t targets).run s := by
  induction targets generalizing s with
  | nil => rfl
  | cons target rest ih =>
    have hrest := ih fun target hmem => h target (List.mem_cons_of_mem _ hmem)
    have htarget := h target List.mem_cons_self s
    rcases ht : t.treat.run (target, s) with ⟨e | ⟨⟩, left, s₁⟩
    · rw [ht] at htarget
      rcases hr : (t.report left e).run s₁ with ⟨fault | ⟨⟩, s₂⟩
      · have hr' : (t'.report left e).run s₁ = (.error fault, s₂) := by rw [hreport, hr]
        rw [run_fanOut_of_unreported ⟨left, e, s₁, ht, hr⟩,
          run_fanOut_of_unreported ⟨left, e, s₁, htarget, hr'⟩]
      · have hr' : (t'.report left e).run s₁ = (.ok (), s₂) := by rw [hreport, hr]
        rw [run_fanOut_of_failure ht hr, run_fanOut_of_failure htarget hr']
        cases policy with
        | abort => rw [haborted]
        | «continue» => simp only [run_map, hrest]
    · rw [ht] at htarget
      rw [run_fanOut_of_success ht, run_fanOut_of_success htarget, hrest]

theorem run_congr {treat treat' : Action (Record × σ) Unit} {found : List Record} {task : String}
    (h : ∀ t ∈ found, ∀ s, treat'.run (t, s) = treat.run (t, s)) (s : σ) :
    (run ctx rule r task treat' found).run s = (run ctx rule r task treat found).run s := by
  have hfanOut : (fanOut rule.policy (treatment ctx rule r task treat') found).run s =
      (fanOut rule.policy (treatment ctx rule r task treat) found).run s := by
    refine run_fanOut_congr ?_ ?_ h s
    · rfl
    · rfl
  rw [run_eq, run_eq, Action.run_bind, Action.run_bind, hfanOut]

/-- A rule that deletes targets deletes what its query gives and nothing else. -/
theorem run_onDestroy_congr {below below' : Cascade σ} {found : List Record}
    (hremove : rule.onDelete = .remove) (h : (search ctx rule r).run s = (.ok found, s'))
    (hdestroy : ∀ t ∈ found, ∀ s, below'.destroy.run (t, s) = below.destroy.run (t, s)) :
    (onDestroy ctx below' rule r).run s = (onDestroy ctx below rule r).run s := by
  have hrun (below : Cascade σ) : (onDestroy ctx below rule r).run s =
      (run ctx rule r "clean up" below.destroy found).run s' := by
    rw [onDestroy_eq_transition ctx below rule r (by rw [hremove]; decide)]
    unfold transition clean
    rw [hremove]
    exact Action.run_bind_ok (run_reporting_ok h "clean up")
  rw [hrun, hrun, run_congr hdestroy]

end DocumentMapper.Sync
