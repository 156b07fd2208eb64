import DocumentMapper.Model.Casting
import DocumentMapper.Proofs.Query.Handing

/-!
# What finders and casts hand over

A finder puts the moments of its filter on a clock of UTC before it asks for anything, so it hands
over no others, whatever filter it is given. What it finds is settled because the database gives
nothing else, and a cast makes settled values of settled ones.
-/

namespace DocumentMapper

open Calendar Outcome DocumentMapper.Action

variable {σ : Type} {I : Set Int} {P : σ → Prop} {ctx : Context σ} {m : Model σ} {v w : Value}
  {d : Document}

/-- A record in which every moment is on a clock of UTC and shows one of the instants. -/
abbrev Record.Settled (I : Set Int) : Record → Prop :=
  Record.All (Moment.ShowsUtc I)

namespace Finder

/-- The entries of a filter name no other instants. -/
def Names (I : Set Int) (filter : Value) : Prop :=
  ∀ d, entries filter = .ok d → (Value.dict d).Within I

theorem names_on {column v : Value} (hv : v.Within I) : Names I (on column v) := by
  intro d hd
  cases hd
  exact Value.all_dict.2 (Document.all_cons.2 ⟨hv, Document.all_nil⟩)

theorem all_hideDeleted {s : Schema} {reach : Reach} {p : Moment → Prop}
    (hd : d.All reach p) : (hideDeleted s d).All reach p := by
  unfold hideDeleted
  split
  · exact hd
  · exact hd.put Value.all_null _

theorem onUtc_of_normalized {s : Schema} {filter : Document}
    (hfilter : (Value.dict filter).Within I) (h : normalized s filter = .ok d) : (Value.dict d).OnUtc I := by
  obtain ⟨w, hw, h⟩ := bind_eq_ok.1 h
  cases h
  have hidentified := Record.all_identified ((Value.all_dict.1 hfilter).eraseField "with_deleted")
  refine Value.all_dict.2 (Value.all_entries (Value.onUtc_of_normalizeDates ?_ hw))
  refine Value.all_dict.2 ?_
  split
  · exact all_hideDeleted hidentified
  · exact hidentified

theorem upholds_requireBound (s : Schema) :
    (ctx.requireBound s : Action σ Unit).Upholds P fun _ => True := by
  unfold Context.requireBound
  split
  · exact .pure trivial
  · exact .throw _

theorem upholds_prepare (hctx : ctx.Settled I P) {filter : Value} (hfilter : Names I filter) :
    (prepare ctx m filter).Upholds P fun f => (Value.dict f).OnUtc I := by
  have hprepared : ∀ f, (do normalized m.toSchema (← entries filter)) = .ok f →
      Document.All .parts (Moment.ShowsUtc I) f := by
    intro f hf
    obtain ⟨d, hd, hf⟩ := bind_eq_ok.1 hf
    exact Value.all_dict.1 (onUtc_of_normalized (hfilter d hd) hf)
  refine (Upholds.ofExcept hprepared).bind fun f hf => ?_
  have htell : (ctx.tell m.registries .fetching fun l => l.onSearch m.name).Upholds
      (Beside (Document.All .parts (Moment.ShowsUtc I)) P) fun _ => True :=
    hctx.tell fun l hl => hl.onSearch m.name
  refine (Upholds.alongside hf htell).bind fun r hr => ?_
  exact (Upholds.ofExcept fun _ _ => trivial).bind fun _ _ => .pure (Value.all_dict.2 hr.1)

theorem upholds_search (hctx : ctx.Settled I P) {filter : Value} (hfilter : Names I filter)
    {operation : Document → Operation}
    (hoperation : ∀ f : Document, (Value.dict f).OnUtc I → (operation f).OnUtc I) {α : Type}
    {use : (f : Document) → (operation f).Answer → α} {Q : α → Prop}
    (huse : ∀ f a, (∀ v ∈ (operation f).answered a, v.Settled I) → Q (use f a)) :
    (search ctx m filter operation use).Upholds P Q :=
  (upholds_requireBound _).bind fun _ _ => (upholds_prepare hctx hfilter).bind fun f hf =>
    (hctx.request _ (hoperation f hf)).bind fun a ha => .pure (huse f a ha)

theorem settled_of_record? {found : Option Document} {r : Record}
    (hfound : ∀ v ∈ (found.map Value.dict).toList, v.Settled I) (h : record? m found = some r) :
    r.Settled I := by
  unfold record? at h
  split at h
  · cases h
    exact Record.all_ofData m.name (Value.all_dict.1 (hfound _ (List.mem_singleton.2 rfl)))
  · cases h

theorem settled_of_mem_records {ds : List Document} {r : Record}
    (hds : ∀ v ∈ ds.map Value.dict, v.Settled I) (h : r ∈ records m ds) : r.Settled I := by
  obtain ⟨d, hd, rfl⟩ := List.mem_map.1 h
  exact Record.all_ofData m.name (Value.all_dict.1 (hds _ (List.mem_map_of_mem hd)))

theorem upholds_first (hctx : ctx.Settled I P) {filter : Value} (hfilter : Names I filter) :
    (first ctx m filter).Upholds P fun found => ∀ r ∈ found, r.Settled I := by
  have hop : ∀ f : Document, (Value.dict f).OnUtc I → (Operation.findOne f).OnUtc I :=
    fun _ hf => List.forall_mem_singleton.2 hf
  exact upholds_search hctx hfilter hop fun f a ha r hr => settled_of_record? ha hr

theorem upholds_findBy (hctx : ctx.Settled I P) {column v : Value} (hv : v.Within I) :
    (findBy ctx m column v).Upholds P fun found => ∀ r ∈ found, r.Settled I :=
  upholds_first hctx (names_on hv)

theorem within_of_identity (hv : v.Within I) (h : identity v = .ok w) : w.Within I := by
  unfold identity at h
  split at h
  · split at h
    · obtain ⟨n, -, h⟩ := bind_eq_ok.1 h
      cases h
      exact Value.all_int _
    · cases h
      exact hv
  · cases h
    exact hv

theorem upholds_find (hctx : ctx.Settled I P) {id : Value} (hid : id.Within I) :
    (find ctx m id).Upholds P fun found => ∀ r ∈ found, r.Settled I :=
  (Upholds.ofExcept fun _ => within_of_identity hid).bind fun _ => upholds_findBy hctx

theorem onUtc_findMany {f : Document} (hf : (Value.dict f).OnUtc I) (column : Value) (n : Int)
    (limit : Option Int) : (Operation.findMany f (some [(column, .int n)]) limit).OnUtc I :=
  List.forall_mem_cons.2 ⟨hf, List.forall_mem_singleton.2
    (Value.all_dict.2 (Document.all_cons.2 ⟨Value.all_int n, Document.all_nil⟩))⟩

theorem upholds_last (hctx : ctx.Settled I P) {filter : Value} (hfilter : Names I filter) :
    (last ctx m filter).Upholds P fun found => ∀ r ∈ found, r.Settled I :=
  upholds_search hctx hfilter (fun _ hf => onUtc_findMany hf _ _ _) fun _ _ ha _ hr =>
    settled_of_mem_records ha (List.mem_of_mem_head? hr)

theorem upholds_latest (hctx : ctx.Settled I P) {filter : Value} (hfilter : Names I filter) :
    (latest ctx m filter).Upholds P fun found => ∀ r ∈ found, r.Settled I :=
  upholds_search hctx hfilter (fun _ hf => onUtc_findMany hf _ _ _) fun _ _ ha _ hr =>
    settled_of_mem_records ha hr

theorem upholds_list (hctx : ctx.Settled I P) {filter : Value} (hfilter : Names I filter) :
    (list ctx m filter).Upholds P fun found => ∀ r ∈ found, r.Settled I := by
  have hop : ∀ f : Document, (Value.dict f).OnUtc I → (Operation.findMany f none none).OnUtc I :=
    fun _ hf => List.forall_mem_cons.2
      ⟨hf, List.forall_mem_singleton.2 (Value.all_dict.2 Document.all_nil)⟩
  exact upholds_search hctx hfilter hop fun _ _ ha _ hr => settled_of_mem_records ha hr

theorem upholds_count (hctx : ctx.Settled I P) {filter : Value} (hfilter : Names I filter) :
    (count ctx m filter).Upholds P fun _ => True := by
  have hop : ∀ f : Document, (Value.dict f).OnUtc I → (Operation.count (some f)).OnUtc I :=
    fun _ hf => List.forall_mem_singleton.2 hf
  exact upholds_search hctx hfilter hop fun _ _ _ => trivial

theorem upholds_exists (hctx : ctx.Settled I P) {filter : Value} (hfilter : Names I filter) :
    («exists» ctx m filter).Upholds P fun _ => True :=
  (upholds_first hctx hfilter).map fun _ _ => trivial

theorem upholds_distinct (hctx : ctx.Settled I P) (column : String) {filter : Value}
    (hfilter : Names I filter) :
    (distinct ctx m column filter).Upholds P fun _ => True := by
  have hop : ∀ f : Document, (Value.dict f).OnUtc I →
      (Operation.distinct column (some f)).OnUtc I :=
    fun _ hf => List.forall_mem_singleton.2 hf
  exact upholds_search hctx hfilter hop fun _ _ _ => trivial

/-! ## Queries of a model -/

theorem fit_fresh (collection : String) (source : Source) :
    (Query.fresh collection source).Fit I :=
  ⟨List.forall_mem_nil _, List.forall_mem_nil _⟩

theorem upholds_query : (query ctx m).Upholds P (Query.Fit I) :=
  (upholds_requireBound _).bind fun _ _ => .pure (fit_fresh _ _)

theorem upholds_launch {q : Query} {α : Type} {act : Query.Run σ α} {Q : α → Prop} (hq : q.Fit I)
    (hact : act.Upholds (Beside (Query.Fit I) P) Q) : (q.launch act).Upholds P Q :=
  (Upholds.alongside hq hact).bind fun _ hr => .ofExcept hr.2

theorem upholds_filtered (hctx : ctx.Settled I P) {filter : Value} (hfilter : Names I filter)
    {α : Type} {act : Query.Run σ α} {Q : α → Prop}
    (hact : act.Upholds (Beside (Query.Fit I) P) Q) : (filtered ctx m filter act).Upholds P Q := by
  refine (upholds_query (I := I)).bind fun q hq => ?_
  refine (upholds_prepare hctx hfilter).bind fun f hf => ?_
  refine upholds_launch hq ?_
  have hclause : (Refinement.clause [.dict f]).Fit I :=
    ⟨List.forall_mem_singleton.2 hf.within, List.forall_mem_nil _⟩
  exact .ite_bind (Query.upholds_refine hclause) (fun _ => rfl) hact

/-! ## Deleting without records -/

theorem upholds_delete (hctx : ctx.Settled I P) {filter : Value} (hfilter : Names I filter) :
    (delete ctx m filter).Upholds P fun _ => True := by
  have hone : ∀ key v : Value, v.moments .parts = [] →
      (ctx.request m.collection (.deleteOne [(key, v)])).Upholds P fun _ => True := by
    intro key v hv
    have hop : (Operation.deleteOne [(key, v)]).OnUtc I := List.forall_mem_singleton.2
      (Value.all_dict.2 (Document.all_cons.2 ⟨Value.all_of_moments hv, Document.all_nil⟩))
    exact (hctx.request _ hop).mono fun _ _ => trivial
  refine (upholds_requireBound _).bind fun _ _ => ?_
  split
  · exact hone _ _ rfl
  · exact hone _ _ rfl
  · exact hone _ _ rfl
  · exact hone _ _ rfl
  · refine (upholds_prepare hctx hfilter).bind fun f hf => ?_
    have hop : (Operation.deleteMany f).OnUtc I := List.forall_mem_singleton.2 hf
    exact (hctx.request _ hop).mono fun _ _ => trivial

/-! ## Numbers -/

/-- The counters are asked for without any moment. -/
theorem onUtc_raise (collection : String) (step : Int) :
    (Counter.raise collection step).operation.OnUtc I := by
  refine List.forall_mem_cons.2 ⟨Value.all_of_moments rfl, List.forall_mem_singleton.2 ?_⟩
  exact Value.all_of_moments rfl

theorem onUtc_seed (collection : String) (start : Int) :
    (Counter.seed collection start).operation.OnUtc I := by
  refine List.forall_mem_cons.2 ⟨Value.all_of_moments rfl, List.forall_mem_singleton.2 ?_⟩
  exact Value.all_of_moments rfl

theorem upholds_number {counter : Option Document}
    (h : ∀ v ∈ (counter.map Value.dict).toList, v.Settled I) :
    ((Counter.ofOutcome (Counter.number counter)).run ctx.execute).Upholds P (Value.Settled I) := by
  cases hnumber : Counter.number counter with
  | error e => exact .throw e
  | ok v =>
    unfold Counter.number at hnumber
    split at hnumber
    · exact .pure (Value.all_of_field (h _ (List.mem_singleton.2 rfl)) hnumber)
    · cases hnumber

theorem upholds_nextId (hctx : ctx.Settled I P) :
    (nextId ctx m).Upholds P (Value.Settled I) := by
  refine (upholds_requireBound _).bind fun _ _ => ?_
  refine (hctx.execute _ (onUtc_raise _ _)).bind fun counter hcounter => ?_
  cases counter with
  | some d => exact upholds_number hcounter
  | none =>
    refine (hctx.execute _ (onUtc_seed _ _)).bind fun _ _ => ?_
    exact (hctx.execute _ (onUtc_raise _ _)).bind fun _ hraised => upholds_number hraised

theorem upholds_lastId (hctx : ctx.Settled I P) :
    (lastId ctx m).Upholds P (Value.Settled I) := by
  have hop : (Operation.findOne (Counter.selector m.collection)).OnUtc I :=
    List.forall_mem_singleton.2 (Value.all_of_moments rfl)
  refine (upholds_requireBound _).bind fun _ _ => ?_
  refine (hctx.execute ⟨Counter.home, _⟩ hop).bind fun counter hcounter => ?_
  match counter, hcounter with
  | some (e :: d), hcounter => exact upholds_number hcounter
  | some [], _ => exact .pure (Value.all_int 0)
  | none, _ => exact .pure (Value.all_int 0)

end Finder

/-! ## Casts -/

namespace Casting

variable {r : Record} {column : String} {rule : CastRule σ}

theorem settled_of_named {type : String} (hv : v.Settled I)
    (hdate : CastKind.ofName type = .date →
      ∀ (v : Value) (m : Moment), v.parseMoment = .ok (.moment m) → m.instant ∈ I)
    (h : named column type v = .ok w) : w.Settled I := by
  unfold named at h
  cases hcast : v.cast (CastKind.ofName type) with
  | error e =>
    rw [hcast] at h
    cases h
  | ok w' =>
    rw [hcast] at h
    cases h
    exact hv.cast (fun hkind m => hdate hkind v m) hcast

theorem settled_of_embeddedOrNull {s : Schema} {found : Option Record}
    (hfound : ∀ r ∈ found, r.Settled I) (h : embeddedOrNull s found = .ok v) : v.Settled I := by
  cases found with
  | none =>
    cases h
    exact Value.all_null
  | some r => exact (hfound r rfl).embeddedValue h

theorem upholds_castValue (hctx : ctx.Settled I P) (hrule : rule.Settled I P) (hr : r.Settled I)
    (hv : v.Settled I) : (castValue ctx r column rule v).Upholds P (Value.Settled I) := by
  unfold castValue
  split
  · rename_i other _ hother
    exact .ofExcept fun _ => (Record.all_of_ofValue? hv hother).embeddedValue
  · exact .ofExcept fun _ => settled_of_named hv hrule
  · split
    · exact .pure hv
    · exact (Finder.upholds_find hctx hv.onUtc.within).bind fun _ hfound =>
        .ofExcept fun _ => settled_of_embeddedOrNull hfound
  · exact hrule v column r hv hr

theorem upholds_castItems (hctx : ctx.Settled I P) (hrule : rule.Settled I P) (hr : r.Settled I)
    {items : List Value} (hitems : ∀ v ∈ items, v.Settled I) :
    (castItems ctx r column rule items).Upholds P fun vs => ∀ v ∈ vs, v.Settled I := by
  induction items with
  | nil => exact .pure (List.forall_mem_nil _)
  | cons v rest ih =>
    obtain ⟨hv, hrest⟩ := List.forall_mem_cons.1 hitems
    exact (upholds_castValue hctx hrule hr hv).bind fun _ hw => (ih hrest).bind fun _ hws =>
      .pure (List.forall_mem_cons.2 ⟨hw, hws⟩)

theorem upholds_castContent (hctx : ctx.Settled I P) (hrule : rule.Settled I P) (hr : r.Settled I)
    (hv : v.Settled I) : (castContent ctx r column rule v).Upholds P (Value.Settled I) := by
  unfold castContent
  split
  · split
    · exact upholds_castValue hctx hrule hr hv
    · exact (upholds_castItems hctx hrule hr (Value.all_list.1 hv)).map fun _ => Value.all_list.2
  · exact upholds_castValue hctx hrule hr hv

theorem upholds_castColumn (hctx : ctx.Settled I P) (hrule : rule.Settled I P) (force : Bool) :
    (castColumn ctx force column rule).Upholds (Beside (Record.Settled I) P) fun _ => True := by
  refine Upholds.get.bind fun t ht => ?_
  obtain ⟨r, s⟩ := t
  have hr : r.Settled I := ht.1
  refine .bind_ite (Q := fun _ => True) (.pure trivial) (.ofExcept fun _ _ => trivial)
    fun due _ => ?_
  simp only
  split
  · refine (Upholds.ofExcept fun _ h => h).bind fun found hfound => ?_
    split
    · refine (Upholds.second (upholds_castContent hctx hrule hr (hr.data.column? hfound))).bind
        fun w hw => ?_
      exact (Upholds.ofExcept fun _ => hr.set hw).bind fun _ hr' => .first (.set hr')
    · exact .pure trivial
  · exact .pure trivial

theorem upholds_castData (hctx : ctx.Settled I P) (force : Bool) :
    (castData ctx force).Upholds (Beside (Record.Settled I) P) fun _ => True :=
  Upholds.get.bind fun t _ => .forM fun e he =>
    upholds_castColumn hctx ((hctx.models t.1.model).casts e he) force

end Casting

end DocumentMapper
