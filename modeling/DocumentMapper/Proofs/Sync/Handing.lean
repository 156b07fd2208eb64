import DocumentMapper.Proofs.Model.Handing
import DocumentMapper.Sync.Transition

/-!
# What rules hand over

A rule looks for the documents that hold copies of a record by the record's identity, changes them
by what the record embeds and has them saved or deleted. If the record is settled, so is all of
that.
-/

namespace DocumentMapper

open Calendar Outcome DocumentMapper.Action

variable {σ : Type} {I : Set Int} {P : σ → Prop} {ctx : Context σ} {below : Cascade σ}
  {rule : Sync.Rule σ} {r : Record} {v : Value}

/-- Saving and deleting that keep records settled and a property of the state. -/
structure Cascade.Settled (I : Set Int) (P : σ → Prop) (below : Cascade σ) : Prop where
  save : ∀ o : SaveOptions, o.changes.Settled I →
    (below.save o).Upholds (Beside (Record.Settled I) P) fun _ => True
  destroy : below.destroy.Upholds (Beside (Record.Settled I) P) fun _ => True

namespace Sync

theorem upholds_reporting (hctx : ctx.Settled I P) {α : Type} {act : Action σ α} {Q : α → Prop}
    (task : String) (hact : act.Upholds P Q) :
    (reporting ctx rule r task act).Upholds P Q :=
  .tryCatch hact fun _ => (hctx.report _ _ _ _).bind fun _ _ => .throw _

theorem upholds_targetsQuery
    (hrule : rule.Settled I P) (hr : r.Settled I) :
    (targetsQuery ctx rule r).Upholds P (Query.Fit I) := by
  have hid : r.id.OnUtc I := Value.Settled.onUtc (hr.data.fieldOrNull "id")
  have hfilter : Document.All .parts (Moment.ShowsUtc I) (Document.ofEntries
      (rule.columns.map fun column => (Value.text (column ++ ".id"), r.id))) :=
    Document.All.ofEntries (List.forall_mem_map.2 fun _ _ => hid)
  have hanyOf : (Refinement.anyOf [.dict (Document.ofEntries (rule.columns.map fun column =>
      (Value.text (column ++ ".id"), r.id)))]).Fit I :=
    ⟨List.forall_mem_nil _, List.forall_mem_map.2 hfilter⟩
  have hrefined : (rule.refiner.getD (return) : Action (Query × σ) Unit).Upholds
      (Beside (Query.Fit I) P) fun _ => True := by
    cases hrefiner : rule.refiner with
    | none => exact .pure trivial
    | some refiner => exact hrule refiner hrefiner
  refine (Finder.upholds_query (I := I)).bind fun q hq => ?_
  refine (Upholds.alongside hq ((Query.upholds_refine hanyOf).bind fun _ _ => hrefined)).bind
    fun found hfound => ?_
  exact (Upholds.ofExcept fun _ _ => trivial).bind fun _ _ => .pure hfound.1

theorem upholds_targets (hctx : ctx.Settled I P)
    (hrule : rule.Settled I P) (hr : r.Settled I) (task : String) :
    (targets ctx rule r task).Upholds P fun found => ∀ t ∈ found, t.Settled I := by
  refine upholds_reporting hctx task ((upholds_targetsQuery hrule hr).bind fun q hq => ?_)
  refine (Finder.upholds_launch hq (Query.upholds_fetch hctx none)).bind fun vs hvs => .pure ?_
  intro t ht
  obtain ⟨v, hv, htv⟩ := List.mem_filterMap.1 ht
  exact Record.all_of_ofValue? (hvs (fun _ hmap => nomatch hmap) v hv) htv

theorem upholds_payload (hctx : ctx.Settled I P) (hr : r.Settled I) (task : String) :
    (payload ctx rule r task).Upholds P (Value.Settled I) :=
  upholds_reporting hctx task
    (.ofExcept fun _ => Rule.all_of_payload (hctx.models r.model).schema hr)

theorem upholds_changeAndSave (hbelow : below.Settled I P)
    {change : Document → Except Error Document}
    (hchange : ∀ d d', d.All .records (Moment.ShowsUtc I) → change d = .ok d' →
      d'.All .records (Moment.ShowsUtc I)) {o : SaveOptions} (ho : o.changes.Settled I) :
    (changeAndSave below change o).Upholds (Beside (Record.Settled I) P) fun _ => True := by
  refine Upholds.get.bind fun t ht => ?_
  obtain ⟨target, s⟩ := t
  refine (Upholds.ofExcept fun d' => hchange _ d' ht.1.data).bind fun d' hd' => ?_
  exact (Upholds.first (.set ⟨hd', ht.1.stored⟩)).bind fun _ _ => hbelow.save o ho

theorem upholds_fanOut {t : Treatment σ}
    (htreat : t.treat.Upholds (Beside (Record.Settled I) P) fun _ => True)
    (hreport : ∀ target e, (t.report target e).Upholds P fun _ => True) (policy : Policy)
    {targets : List Record} (htargets : ∀ target ∈ targets, target.Settled I) :
    (fanOut policy t targets).Upholds P fun _ => True := by
  induction targets with
  | nil => exact .pure trivial
  | cons target rest ih =>
    obtain ⟨htarget, hrest⟩ := List.forall_mem_cons.1 htargets
    refine (Upholds.alongside htarget htreat).bind fun found _ => ?_
    obtain ⟨outcome, target'⟩ := found
    cases outcome with
    | ok _ => exact ih hrest
    | error e =>
      refine (hreport target' e).bind fun _ _ => ?_
      cases policy with
      | abort => exact .throw _
      | «continue» => exact (ih hrest).bind fun _ _ => .pure trivial

theorem upholds_run (hctx : ctx.Settled I P) {treat : Action (Record × σ) Unit}
    (htreat : treat.Upholds (Beside (Record.Settled I) P) fun _ => True) (task : String)
    {targets : List Record} (htargets : ∀ target ∈ targets, target.Settled I) :
    (run ctx rule r task treat targets).Upholds P fun _ => True := by
  refine (upholds_fanOut (t := ⟨treat, _, _⟩) htreat (fun _ _ => hctx.report _ _ _ _) rule.policy
    htargets).bind fun failures _ => ?_
  split
  · exact .throw _
  · exact .pure trivial

theorem upholds_onCreate (hctx : ctx.Settled I P) (hbelow : below.Settled I P)
    (hr : r.Settled I) : (onCreate ctx below rule r).Upholds P fun _ => True := by
  unfold onCreate
  split
  · exact .pure trivial
  refine Upholds.bind (Q := fun found => (∀ t ∈ found.1, t.Settled I) ∧ found.2.Settled I)
    (upholds_reporting hctx _ ?_) fun found hfound => ?_
  · refine (Upholds.ofExcept (Q := Value.Settled I) fun _ => hr.data.columnD Value.all_null).bind
      fun id hid => ?_
    refine (Finder.upholds_first hctx (Finder.names_on hid.onUtc.within)).bind
      fun target htarget => ?_
    refine (Upholds.ofExcept fun _ => Rule.all_of_payload (hctx.models r.model).schema hr).bind
      fun v hv => ?_
    exact .pure ⟨htarget, hv⟩
  · obtain ⟨target, v⟩ := found
    simp only
    split
    · refine upholds_run hctx (upholds_changeAndSave hbelow ?_ ?_) _
        (List.forall_mem_singleton.2 (hfound.1 _ rfl))
      · exact fun d d' => all_of_embed hfound.2
      · exact Value.all_null
    · exact .pure trivial

theorem upholds_onUpdate (hctx : ctx.Settled I P) (hbelow : below.Settled I P)
    (hrule : rule.Settled I P) (hr : r.Settled I)
    (old : Option Record) : (onUpdate ctx below rule r old).Upholds P fun _ => True := by
  refine (Upholds.ofExcept fun _ h => h).bind fun due _ => ?_
  split
  · refine (upholds_targets hctx hrule hr _).bind fun found hfound => ?_
    refine (upholds_payload hctx hr _).bind fun v hv => ?_
    refine upholds_run hctx (upholds_changeAndSave hbelow ?_ ?_) _ hfound
    · exact fun d d' => all_of_refresh hv
    · exact Value.all_null
  · exact .pure trivial

theorem upholds_onSave (hctx : ctx.Settled I P) (hbelow : below.Settled I P)
    (hrule : rule.Settled I P) (hr : r.Settled I)
    (change : Change) : (onSave ctx below rule r change).Upholds P fun _ => True := by
  cases change with
  | created => exact upholds_onCreate hctx hbelow hr
  | updated old => exact upholds_onUpdate hctx hbelow hrule hr old

theorem upholds_clean (hbelow : below.Settled I P) :
    (clean ctx below rule r).Upholds (Beside (Record.Settled I) P) fun _ => True := by
  unfold clean
  split
  · exact hbelow.destroy
  · exact upholds_changeAndSave hbelow (fun _ _ => all_of_release) Value.all_null

theorem upholds_onDestroy (hctx : ctx.Settled I P) (hbelow : below.Settled I P)
    (hrule : rule.Settled I P) (hr : r.Settled I) :
    (onDestroy ctx below rule r).Upholds P fun _ => True := by
  unfold onDestroy
  split
  · exact .pure trivial
  · exact (upholds_targets hctx hrule hr _).bind fun _ hfound =>
      upholds_run hctx (upholds_clean hbelow) _ hfound

end Sync

end DocumentMapper
