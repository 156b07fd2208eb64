import DocumentMapper.Proofs.Sync.Confinement

/-!
# Cascades along ranked models

Saving or deleting a record saves and deletes others, by the rules of its model, and these others in
turn. If models have ranks so that every rule leads to a model of smaller rank, this comes to an
end: what is saved and deleted below a record is of smaller rank than the record. So a cascade that
is deeper than the rank of a record does the same to it whatever comes after that depth, and there
is exactly one way of saving and deleting records without any bound.
-/

namespace DocumentMapper

variable {σ : Type}

namespace Action

variable {α β γ : Type} {s : σ}

/-- What follows an action may differ where the action does not lead. -/
theorem run_bind_congr {act : Action σ α} {next next' : α → Action σ β}
    (h : ∀ a s', act.run s = (.ok a, s') → (next a).run s' = (next' a).run s') :
    (act >>= next).run s = (act >>= next').run s := by
  rw [run_bind, run_bind]
  rcases hact : act.run s with ⟨e | a, s'⟩
  · rfl
  · exact h a s' hact

theorem run_forM_congr {f g : γ → Action σ PUnit} {l : List γ}
    (h : ∀ x ∈ l, ∀ s, (f x).run s = (g x).run s) (s : σ) :
    (l.forM f).run s = (l.forM g).run s := by
  induction l generalizing s with
  | nil => rfl
  | cons x rest ih =>
    obtain ⟨hx, hrest⟩ := List.forall_mem_cons.1 h
    show (f x >>= fun _ => rest.forM f).run s = (g x >>= fun _ => rest.forM g).run s
    rw [run_bind, run_bind, hx s]
    rcases (g x).run s with ⟨e | ⟨⟩, s'⟩
    · rfl
    · exact ih hrest s'

end Action

/-- Two ways of saving and deleting records do the same to all records of some models. -/
structure Cascade.Agree (models : String → Prop) (c c' : Cascade σ) : Prop where
  save : ∀ r : Record, models r.model → ∀ o s, (c.save o).run (r, s) = (c'.save o).run (r, s)
  destroy : ∀ r : Record, models r.model → ∀ s, c.destroy.run (r, s) = c'.destroy.run (r, s)

theorem Cascade.Agree.mono {models models' : String → Prop} {c c' : Cascade σ}
    (h : c.Agree models c') (hmodels : ∀ name, models' name → models name) :
    c.Agree models' c' :=
  ⟨fun r hr => h.save r (hmodels _ hr), fun r hr => h.destroy r (hmodels _ hr)⟩

theorem Cascade.Agree.symm {models : String → Prop} {c c' : Cascade σ} (h : c.Agree models c') :
    c'.Agree models c :=
  ⟨fun r hr o s => (h.save r hr o s).symm, fun r hr s => (h.destroy r hr s).symm⟩

/-- A query is left one of the model that it was of. -/
def Query.KeepsSource {α : Type} (act : Query.Run σ α) : Prop :=
  ∀ source, act.Preserves fun t => t.1.source = source

/-- Every rule leads to a model of smaller rank. Refiners and listeners may do what they like to a
query but for making it one of another model. -/
structure Context.Ranked (ctx : Context σ) (rank : String → Nat) : Prop where
  lt : ∀ name, ∀ rule ∈ (ctx.model name).rules, rank (ctx.model rule.target).name < rank name
  refiners : ∀ name, ∀ rule ∈ (ctx.model name).rules, ∀ refiner ∈ rule.refiner,
    Query.KeepsSource refiner
  listeners : ∀ id event s ls s', (ctx.listeners id event).run s = (.ok ls, s') →
    ∀ l ∈ ls, Query.KeepsSource l.onQuery

variable {ctx : Context σ} {rule : Sync.Rule σ} {r : Record} {s s' : σ} {c c' : Cascade σ}
  {rank : String → Nat} {name : String}

/-! ## The models of targets -/

theorem Finder.model_of_first {m : Model σ} {filter : Value}
    (h : (Finder.first ctx m filter).run s = (.ok (some r), s')) : r.model = m.name := by
  obtain ⟨⟨⟩, s₁, -, h⟩ := Action.run_bind_eq_ok.1 h
  obtain ⟨f, s₂, -, h⟩ := Action.run_bind_eq_ok.1 h
  obtain ⟨d, s₃, -, h⟩ := Action.run_bind_eq_ok.1 h
  have hrecord : Finder.record? m d = some r := Except.ok.inj (Prod.mk.inj h).1
  unfold Finder.record? at hrecord
  split at hrecord
  · cases hrecord
    rfl
  · cases hrecord

namespace Query

/-- What a query of a model gives are records of the model. -/
theorem model_of_mem_results {q : Query} {docs : List Document} {vs : List Value}
    (hq : q.source = .model name) (h : q.results none docs = .ok vs)
    (hr : r ∈ vs.filterMap Record.ofValue?) : r.model = name := by
  obtain ⟨ds, -, h⟩ := Outcome.bind_eq_ok.1 h
  obtain ⟨v, hv, hrecord⟩ := List.mem_filterMap.1 hr
  obtain ⟨d, -, hmap⟩ := Outcome.exists_of_mem_mapM h hv
  simp only [standardMap, hq] at hmap
  cases hmap
  cases hrecord
  rfl

theorem keepsSource_announce
    (h : ∀ id event s ls s', (ctx.listeners id event).run s = (.ok ls, s') →
      ∀ l ∈ ls, KeepsSource l.onQuery) (event : Event) : KeepsSource (announce ctx event) := by
  intro source
  refine .bind (.bind (fun t ht => ht) fun t => .pure t.1) fun q => .forM fun id _ => ?_
  intro t ht
  rw [Action.run_bind]
  rcases hls : (ctx.listeners id event).run t.2 with ⟨e | ls, s'⟩
  · rw [Action.run_second hls]
    exact ht
  · rw [Action.run_second hls]
    exact Action.Preserves.forM (fun l hl => h id event t.2 ls s' hls l hl source) (t.1, s') ht

theorem keepsSource_fetch
    (h : ∀ id event s ls s', (ctx.listeners id event).run s = (.ok ls, s') →
      ∀ l ∈ ls, KeepsSource l.onQuery) (map : Option Transform) : KeepsSource (fetch ctx map) := by
  intro source
  have hcurrent : (current : Run σ Query).Preserves fun t => t.1.source = source :=
    .bind (fun t ht => ht) fun t => .pure t.1
  have hrequire : (requireExecutor : Run σ Unit).Preserves fun t => t.1.source = source := by
    refine hcurrent.bind fun q => ?_
    split
    · exact fun t ht => ht
    · exact .pure ()
  refine .bind ?_ fun ds => hcurrent.bind fun q => .ofExcept _
  refine hrequire.bind fun _ => (keepsSource_announce h _ source).bind fun _ => ?_
  exact hcurrent.bind fun q t ht => ht

end Query

theorem source_of_query {m : Model σ} {q : Query}
    (h : (Finder.query ctx m).run s = (.ok q, s')) : q.source = .model m.name := by
  obtain ⟨⟨⟩, s₁, -, h⟩ := Action.run_bind_eq_ok.1 h
  cases h
  rfl

/-- What is done to a query on its own keeps its source. -/
theorem source_of_alongside {α : Type} {q q' : Query} {act : Query.Run σ α}
    {outcome : Except Error α} (hact : Query.KeepsSource act)
    (h : (Action.alongside q act).run s = (.ok (outcome, q'), s')) : q'.source = q.source := by
  have hown : (act.run (q, s)).2.1 = q' := congrArg Prod.snd (Except.ok.inj (congrArg Prod.fst h))
  rw [← hown]
  exact hact q.source (q, s) rfl

namespace Sync

variable {found : List Record}

theorem source_of_targetsQuery (hctx : ctx.Ranked rank) (hrule : rule ∈ (ctx.model name).rules)
    {q : Query} (h : (targetsQuery ctx rule r).run s = (.ok q, s')) :
    q.source = .model (ctx.model rule.target).name := by
  obtain ⟨q₀, s₁, hfresh, h⟩ := Action.run_bind_eq_ok.1 h
  obtain ⟨⟨outcome, q₁⟩, s₂, hrefine, h⟩ := Action.run_bind_eq_ok.1 h
  obtain ⟨⟨⟩, s₃, houtcome, h⟩ := Action.run_bind_eq_ok.1 h
  cases h
  rw [← source_of_query hfresh]
  refine source_of_alongside (fun source => ?_) hrefine
  have hrefiner : (rule.refiner.getD (return)).Preserves fun t => t.1.source = source := by
    cases hrefiner : rule.refiner with
    | none => exact .pure ()
    | some refiner => exact hctx.refiners name rule hrule refiner (by rw [hrefiner]; rfl) source
  exact .bind (fun t ht => ht) fun _ => hrefiner

/-- The targets of a rule are records of its target model. -/
theorem model_of_targets (hctx : ctx.Ranked rank) (hrule : rule ∈ (ctx.model name).rules)
    {task : String} (h : (targets ctx rule r task).run s = (.ok found, s')) :
    ∀ t ∈ found, t.model = (ctx.model rule.target).name := by
  have hsearch : (search ctx rule r).run s = (.ok found, s') := Action.run_tryCatch_throw_eq_ok.1 h
  obtain ⟨q, s₁, hquery, h⟩ := Action.run_bind_eq_ok.1 hsearch
  obtain ⟨vs, s₂, hlaunch, h⟩ := Action.run_bind_eq_ok.1 h
  cases h
  obtain ⟨q', hfetch⟩ := run_launch_eq_ok.1 hlaunch
  obtain ⟨s₃, docs, hsent, hresults⟩ := exists_of_fetch hfetch
  have hkept : q'.source = .model (ctx.model rule.target).name :=
    (Query.keepsSource_fetch hctx.listeners none _).of_run
      (source_of_targetsQuery hctx hrule hquery) hfetch
  exact fun t ht => Query.model_of_mem_results hkept hresults ht

/-! ## What a rule does -/

theorem run_changeAndSave_congr (h : c.Agree (· = r.model) c')
    (change : Document → Except Error Document) (o : SaveOptions) (s : σ) :
    (changeAndSave c change o).run (r, s) = (changeAndSave c' change o).run (r, s) := by
  cases hd : change r.data with
  | error e => rw [run_changeAndSave_error hd, run_changeAndSave_error hd]
  | ok d =>
    rw [run_changeAndSave_ok hd, run_changeAndSave_ok hd]
    exact h.save { r with data := d } rfl o s

theorem run_clean_congr {t : Record} (h : c.Agree (· = t.model) c') (s : σ) :
    (clean ctx c rule r).run (t, s) = (clean ctx c' rule r).run (t, s) := by
  unfold clean
  split
  · exact h.destroy t rfl s
  · exact run_changeAndSave_congr h _ _ s

theorem run_onCreate_congr (h : c.Agree (· = (ctx.model rule.target).name) c') (s : σ) :
    (onCreate ctx c rule r).run s = (onCreate ctx c' rule r).run s := by
  unfold onCreate
  split
  · rfl
  refine Action.run_bind_congr fun found s₁ hfound => ?_
  obtain ⟨target, v⟩ := found
  cases target with
  | none => rfl
  | some target =>
    obtain ⟨id, s₂, -, hfound⟩ := Action.run_bind_eq_ok.1 (Action.run_tryCatch_throw_eq_ok.1 hfound)
    obtain ⟨target', s₃, hfirst, hfound⟩ := Action.run_bind_eq_ok.1 hfound
    obtain ⟨v', s₄, -, hfound⟩ := Action.run_bind_eq_ok.1 hfound
    cases hfound
    refine run_congr (fun t ht s => ?_) s₁
    obtain rfl := List.mem_singleton.1 ht
    exact run_changeAndSave_congr (Finder.model_of_first hfirst ▸ h) _ _ s

theorem run_onUpdate_congr (hctx : ctx.Ranked rank) (hrule : rule ∈ (ctx.model name).rules)
    (h : c.Agree (· = (ctx.model rule.target).name) c') (old : Option Record) (s : σ) :
    (onUpdate ctx c rule r old).run s = (onUpdate ctx c' rule r old).run s := by
  refine Action.run_bind_congr fun due s₁ _ => ?_
  split
  · refine Action.run_bind_congr fun found s₂ hfound => ?_
    refine Action.run_bind_congr fun v s₃ _ => run_congr (fun t ht s => ?_) s₃
    have hmodel := model_of_targets hctx hrule hfound t ht
    exact run_changeAndSave_congr (hmodel ▸ h) _ _ s
  · rfl

theorem run_onDestroy_of_agree (hctx : ctx.Ranked rank) (hrule : rule ∈ (ctx.model name).rules)
    (h : c.Agree (· = (ctx.model rule.target).name) c') (s : σ) :
    (onDestroy ctx c rule r).run s = (onDestroy ctx c' rule r).run s := by
  unfold onDestroy
  split
  · rfl
  · refine Action.run_bind_congr fun found s₁ hfound => run_congr (fun t ht s => ?_) s₁
    have hmodel := model_of_targets hctx hrule hfound t ht
    exact run_clean_congr (hmodel ▸ h) s

theorem run_onSave_congr (hctx : ctx.Ranked rank) (hrule : rule ∈ (ctx.model name).rules)
    (h : c.Agree (· = (ctx.model rule.target).name) c') (change : Change) (s : σ) :
    (onSave ctx c rule r change).run s = (onSave ctx c' rule r change).run s := by
  cases change with
  | created => exact run_onCreate_congr h s
  | updated old => exact run_onUpdate_congr hctx hrule h old s

end Sync

namespace Lifecycle

/-! ## What a record does -/

theorem run_outside_congr {α : Type} {act act' : Action σ α} {t : Record × σ}
    (h : act.run t.2 = act'.run t.2) : (outside act).run t = (outside act').run t := by
  simp only [outside, Action.second, Action.within, h]

variable (hctx : ctx.Ranked rank) (h : c.Agree (fun name' => rank name' < rank name) c')

include hctx h in
theorem agree_target (hrule : rule ∈ (ctx.model name).rules) :
    c.Agree (· = (ctx.model rule.target).name) c' :=
  h.mono fun _ htarget => htarget ▸ hctx.lt name rule hrule

include hctx h in
theorem run_syncSaved_congr (change : Sync.Change) (t : Record × σ) :
    (syncSaved ctx c (ctx.model name) change).run t =
      (syncSaved ctx c' (ctx.model name) change).run t := by
  refine Action.run_bind_congr fun r t' _ => Action.run_forM_congr (fun rule hrule t => ?_) t'
  exact run_outside_congr
    (Sync.run_onSave_congr hctx hrule (agree_target hctx h hrule) change t.2)

include hctx h in
theorem run_syncDestroyed_congr (t : Record × σ) :
    (syncDestroyed ctx c (ctx.model name)).run t =
      (syncDestroyed ctx c' (ctx.model name)).run t := by
  refine Action.run_bind_congr fun r t' _ => Action.run_forM_congr (fun rule hrule t => ?_) t'
  exact run_outside_congr (Sync.run_onDestroy_of_agree hctx hrule (agree_target hctx h hrule) t.2)

/-- What is saved and deleted in the course of saving a record is of smaller rank. -/
theorem run_save_congr (hctx : ctx.Ranked rank)
    (h : c.Agree (fun name' => rank name' < rank r.model) c') (o : SaveOptions) (s : σ) :
    (save ctx c o).run (r, s) = (save ctx c' o).run (r, s) := by
  have hrecord : (record : Step σ Record).run (r, s) = (.ok r, r, s) := rfl
  unfold save
  rw [Action.run_bind_ok hrecord, Action.run_bind_ok hrecord]
  refine Action.run_bind_congr fun _ t₁ _ => Action.run_bind_congr fun change t₂ _ => ?_
  cases change with
  | none => rfl
  | some change => exact Action.run_bind_congr fun _ t₃ _ => run_syncSaved_congr hctx h change t₃

theorem run_destroy_congr (hctx : ctx.Ranked rank)
    (h : c.Agree (fun name' => rank name' < rank r.model) c') (s : σ) :
    (destroy ctx c).run (r, s) = (destroy ctx c').run (r, s) := by
  have hrecord : (record : Step σ Record).run (r, s) = (.ok r, r, s) := rfl
  unfold destroy
  rw [Action.run_bind_ok hrecord, Action.run_bind_ok hrecord]
  split
  · refine Action.run_bind_congr fun _ t₁ _ => ?_
    have hrest (t : Record × σ) : (do
        logged ctx (ctx.model r.model) "destroy" (withdraw ctx (ctx.model r.model))
        syncDestroyed ctx c (ctx.model r.model)).run t = (do
        logged ctx (ctx.model r.model) "destroy" (withdraw ctx (ctx.model r.model))
        syncDestroyed ctx c' (ctx.model r.model)).run t :=
      Action.run_bind_congr fun _ t' _ => run_syncDestroyed_congr hctx h t'
    dsimp only
    split
    · refine Action.run_bind_congr fun time t₂ _ => Action.run_bind_congr fun _ t₃ _ => hrest t₃
    · exact hrest t₁
  · rfl

/-! ## Cascades -/

/-- Saving and deleting above another way of doing so. -/
def above (ctx : Context σ) (c : Cascade σ) : Cascade σ :=
  ⟨save ctx c, destroy ctx c⟩

/-- A cascade of some depth with anything beyond it. -/
def cascadeOver (ctx : Context σ) (beyond : Cascade σ) : Nat → Cascade σ
  | 0 => beyond
  | depth + 1 => above ctx (cascadeOver ctx beyond depth)

theorem cascade_eq (ctx : Context σ) (depth : Nat) :
    cascade ctx depth = cascadeOver ctx ⟨fun _ => throw .cascadeTooDeep, throw .cascadeTooDeep⟩
      depth := by
  induction depth with
  | zero => rfl
  | succ depth ih => rw [cascade, cascadeOver, above, ih]

/-- One step: what agrees on smaller records agrees on greater ones after one more step. -/
theorem agree_above (hctx : ctx.Ranked rank) {bound : Nat}
    (h : c.Agree (fun name => rank name < bound) c') :
    (above ctx c).Agree (fun name => rank name < bound + 1) (above ctx c') := by
  have hbelow (r : Record) (hr : rank r.model < bound + 1) :
      c.Agree (fun name => rank name < rank r.model) c' :=
    h.mono fun _ hname => by omega
  exact ⟨fun r hr o s => run_save_congr hctx (hbelow r hr) o s,
    fun r hr s => run_destroy_congr hctx (hbelow r hr) s⟩

/-- Cascades that are deep enough agree on all records below a rank, whatever lies beyond. -/
theorem agree_cascadeOver (hctx : ctx.Ranked rank) (beyond beyond' : Cascade σ) {bound : Nat} :
    ∀ {depth depth' : Nat}, bound ≤ depth → bound ≤ depth' →
      (cascadeOver ctx beyond depth).Agree (fun name => rank name < bound)
        (cascadeOver ctx beyond' depth') := by
  induction bound with
  | zero => exact fun _ _ => ⟨fun _ h => absurd h (Nat.not_lt_zero _),
      fun _ h => absurd h (Nat.not_lt_zero _)⟩
  | succ bound ih =>
    intro depth depth' hdepth hdepth'
    cases depth with
    | zero => omega
    | succ depth =>
      cases depth' with
      | zero => omega
      | succ depth' => exact agree_above hctx (ih (by omega) (by omega))

/-- Two ways of saving and deleting that each go on as they do agree on all records. -/
theorem agree_of_eq_above (hctx : ctx.Ranked rank) (hc : c = above ctx c) (hc' : c' = above ctx c')
    (bound : Nat) : c.Agree (fun name => rank name < bound) c' := by
  induction bound with
  | zero => exact ⟨fun _ h => absurd h (Nat.not_lt_zero _), fun _ h => absurd h (Nat.not_lt_zero _)⟩
  | succ bound ih =>
    rw [hc, hc']
    exact agree_above hctx ih

/-- Saving and deleting without a bound: for each record a cascade that is deep enough. -/
def unbounded (ctx : Context σ) (rank : String → Nat) : Cascade σ where
  save o := ⟨fun t => ((cascade ctx (rank t.1.model + 1)).save o).run t⟩
  destroy := ⟨fun t => ((cascade ctx (rank t.1.model + 1)).destroy).run t⟩

theorem agree_unbounded (hctx : ctx.Ranked rank) (beyond : Cascade σ) {bound depth : Nat}
    (hdepth : bound ≤ depth) :
    (unbounded ctx rank).Agree (fun name => rank name < bound) (cascadeOver ctx beyond depth) := by
  have hagree (r : Record) (hr : rank r.model < bound) :
      (cascade ctx (rank r.model + 1)).Agree (fun name => rank name < rank r.model + 1)
        (cascadeOver ctx beyond depth) := by
    rw [cascade_eq]
    exact agree_cascadeOver hctx _ beyond (Nat.le_refl _) (by omega)
  exact ⟨fun r hr => (hagree r hr).save r (Nat.lt_succ_self _),
    fun r hr => (hagree r hr).destroy r (Nat.lt_succ_self _)⟩

theorem unbounded_eq_above (hctx : ctx.Ranked rank) :
    unbounded ctx rank = above ctx (unbounded ctx rank) := by
  have hbelow (r : Record) : (cascade ctx (rank r.model)).Agree
      (fun name => rank name < rank r.model) (unbounded ctx rank) := by
    have hagree := agree_unbounded hctx ⟨fun _ => throw .cascadeTooDeep, throw .cascadeTooDeep⟩
      (Nat.le_refl (rank r.model))
    rw [← cascade_eq] at hagree
    exact hagree.symm
  have hsave : (unbounded ctx rank).save = save ctx (unbounded ctx rank) := by
    funext o
    ext t : 2
    exact run_save_congr hctx (hbelow t.1) o t.2
  have hdestroy : (unbounded ctx rank).destroy = destroy ctx (unbounded ctx rank) := by
    ext t : 2
    exact run_destroy_congr hctx (hbelow t.1) t.2
  rw [above, ← hsave, ← hdestroy]

theorem eq_of_agree (h : ∀ bound, c.Agree (fun name => rank name < bound) c') : c = c' := by
  have hsave : c.save = c'.save := by
    funext o
    ext t : 2
    exact (h (rank t.1.model + 1)).save t.1 (Nat.lt_succ_self _) o t.2
  have hdestroy : c.destroy = c'.destroy := by
    ext t : 2
    exact (h (rank t.1.model + 1)).destroy t.1 (Nat.lt_succ_self _) t.2
  cases c
  cases c'
  cases hsave
  cases hdestroy
  rfl

/-- With ranked models saving and deleting a record comes to records of smaller rank only, and there
is exactly one way of doing so that goes on below as it does above. A cascade deeper than the rank
of a record saves and deletes it in this way, with the same outcome, the same record and the same
state, whatever lies beyond that depth: nothing is done so far down, since below a record of some
rank no more than so many saves and deletions lie within one another. -/
theorem cascade_unbounded (hctx : ctx.Ranked rank) :
    (∀ (r : Record) (c c' : Cascade σ), c.Agree (fun name => rank name < rank r.model) c' →
      ∀ s, (∀ o, (save ctx c o).run (r, s) = (save ctx c' o).run (r, s)) ∧
        (destroy ctx c).run (r, s) = (destroy ctx c').run (r, s)) ∧
    ∃ whole : Cascade σ,
      (whole.save = save ctx whole ∧ whole.destroy = destroy ctx whole) ∧
      (∀ other : Cascade σ, other.save = save ctx other → other.destroy = destroy ctx other →
        other = whole) ∧
      ∀ (r : Record) (depth : Nat), rank r.model < depth → ∀ s : σ,
        (∀ o, ((cascade ctx depth).save o).run (r, s) = (whole.save o).run (r, s)) ∧
        (cascade ctx depth).destroy.run (r, s) = whole.destroy.run (r, s) ∧
        ∀ beyond : Cascade σ,
          (∀ o, ((cascadeOver ctx beyond depth).save o).run (r, s) = (whole.save o).run (r, s)) ∧
          (cascadeOver ctx beyond depth).destroy.run (r, s) = whole.destroy.run (r, s) := by
  have hwhole := unbounded_eq_above hctx
  refine ⟨fun r c c' h s => ⟨fun o => run_save_congr hctx h o s, run_destroy_congr hctx h s⟩,
    unbounded ctx rank, ⟨congrArg Cascade.save hwhole, congrArg Cascade.destroy hwhole⟩,
    fun other hsave hdestroy => ?_, fun r depth hdepth s => ?_⟩
  · have hother : other = above ctx other := by rw [above, ← hsave, ← hdestroy]
    exact eq_of_agree fun bound => agree_of_eq_above hctx hother hwhole bound
  · have hagree (beyond : Cascade σ) := (agree_unbounded hctx beyond (Nat.le_refl depth)).symm
    rw [cascade_eq]
    exact ⟨fun o => (hagree _).save r hdepth o s, (hagree _).destroy r hdepth s,
      fun beyond => ⟨fun o => (hagree beyond).save r hdepth o s,
        (hagree beyond).destroy r hdepth s⟩⟩

/-! ### Customers in orders -/

/-- Orders embed their customers, and nothing embeds orders. -/
def embedding : Context (List Value) :=
  { Sync.orders with
    model := fun name =>
      { Sync.orders.model name with
        rules := if name = "Customer" then [Sync.customerRule] else [] } }

def depthOf (name : String) : Nat :=
  if name = "Customer" then 1 else 0

theorem ranked_embedding : embedding.Ranked depthOf where
  lt name rule hrule := by
    by_cases hname : name = "Customer"
    · have hmem : rule ∈ [Sync.customerRule] := by simpa [embedding, hname] using hrule
      rw [List.mem_singleton.1 hmem, hname]
      decide
    · simp [embedding, hname] at hrule
  refiners name rule hrule refiner hrefiner := by
    by_cases hname : name = "Customer"
    · have hmem : rule ∈ [Sync.customerRule] := by simpa [embedding, hname] using hrule
      rw [List.mem_singleton.1 hmem] at hrefiner
      cases hrefiner
    · simp [embedding, hname] at hrule
  listeners id event s ls s' h l hl := by
    cases h
    cases hl

theorem cascade_unbounded_customer :
    embedding.Ranked depthOf ∧ depthOf Sync.customer.model < 2 ∧
    ∀ (beyond : Cascade (List Value)) (s : List Value),
      ((cascadeOver embedding beyond 2).save .standard).run (Sync.customer, s) =
        ((cascade embedding 7).save .standard).run (Sync.customer, s) := by
  have hrank : depthOf Sync.customer.model < 2 := by decide
  refine ⟨ranked_embedding, hrank, fun beyond s => ?_⟩
  obtain ⟨-, whole, -, -, hdepth⟩ := cascade_unbounded ranked_embedding
  obtain ⟨-, -, hbeyond⟩ := hdepth Sync.customer 2 hrank s
  obtain ⟨hdeeper, -, -⟩ := hdepth Sync.customer 7 (by decide) s
  exact ((hbeyond beyond).1 .standard).trans (hdeeper .standard).symm

end Lifecycle

end DocumentMapper
