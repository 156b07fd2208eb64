import DocumentMapper.Model.Store
import DocumentMapper.Proofs.Sync.Handing

/-!
# Clocks of what is handed over

Filters of clauses and finders are put on a clock of UTC, whatever they are made of. Alternatives,
the greatest distance from a place and the data of records are not: they are handed over as they
are. So everything that is handed over is on a clock of UTC if these are, and they alone decide
about a query of filters.
-/

namespace DocumentMapper

open Calendar Outcome DocumentMapper.Action

variable {σ : Type} {I : Set Int} {P : σ → Prop} {ctx : Context σ} {below : Cascade σ}
  {m : Model σ} {r : Record} {v : Value}

namespace Lifecycle

variable {α : Type}

/-! ## Parts of saving and deleting -/

theorem upholds_record : (record : Step σ Record).Upholds (Beside (Record.Settled I) P)
    (Record.Settled I) :=
  Upholds.get.bind fun _ ht => .pure ht.1

theorem upholds_outside {act : Action σ α} {Q : α → Prop} (h : act.Upholds P Q) :
    (outside act).Upholds (Beside (Record.Settled I) P) Q :=
  .second h

theorem upholds_modifyData {f : Document → Document}
    (hf : ∀ d : Document, d.All .records (Moment.ShowsUtc I) →
      (f d).All .records (Moment.ShowsUtc I)) :
    (modifyData f : Step σ Unit).Upholds (Beside (Record.Settled I) P) fun _ => True :=
  .modify fun _ ht => ⟨⟨hf _ ht.1.data, ht.1.stored⟩, ht.2⟩

theorem upholds_stamp {time : Moment} (htime : time.ShowsUtc I) (column : Value) :
    (stamp column time : Step σ Unit).Upholds (Beside (Record.Settled I) P) fun _ => True := by
  unfold stamp
  split
  · exact upholds_modifyData fun _ hd => hd.put (Value.all_moment.2 htime) column
  · exact .pure trivial

theorem upholds_announceAll (hctx : ctx.Settled I P) (wanted : Bool) (events : List Event)
    {old : Option Record} (hold : ∀ r ∈ old, r.Settled I) :
    (announceAll ctx wanted m events old).Upholds (Beside (Record.Settled I) P) fun _ => True := by
  unfold announceAll
  split
  · exact .forM fun event _ => hctx.tell fun l hl => hl.onRecord old hold
  · exact .pure trivial

theorem onUtc_of_keyFilter {d filter : Document} (hd : d.All .records (Moment.ShowsUtc I))
    (h : keyFilter d = .ok filter) : (Value.dict filter).OnUtc I := by
  obtain ⟨key, hkey, h⟩ := bind_eq_ok.1 h
  cases h
  have hsettled : key.Settled I := Value.all_of_field (Value.all_dict.2 hd) hkey
  exact Value.all_dict.2 (Document.all_cons.2 ⟨hsettled.onUtc, Document.all_nil⟩)

theorem onUtc_data (hr : r.Settled I) : (Value.dict r.data).OnUtc I :=
  Value.Settled.onUtc (Value.all_dict.2 hr.data)

theorem upholds_replace (hctx : ctx.Settled I P) :
    (replace ctx m).Upholds (Beside (Record.Settled I) P) fun _ => True := by
  refine upholds_record.bind fun r hr => ?_
  refine (Upholds.ofExcept fun _ => onUtc_of_keyFilter hr.data).bind fun filter hfilter => ?_
  have hop : (Operation.replaceOne filter r.data false).OnUtc I :=
    List.forall_mem_cons.2 ⟨hfilter, List.forall_mem_singleton.2 (onUtc_data hr)⟩
  exact (upholds_outside (hctx.request _ hop)).bind fun _ _ => .pure trivial

theorem all_of_defaultEntries {defaults : List (String × Default)} {d : Document}
    (hr : r.Settled I) (hdefaults : ∀ e ∈ defaults, e.2.Settled I)
    (h : defaultEntries r defaults = .ok d) : d.All .records (Moment.ShowsUtc I) := by
  induction defaults generalizing d with
  | nil =>
    cases h
    exact Document.all_nil
  | cons e rest ih =>
    obtain ⟨he, hrest⟩ := List.forall_mem_cons.1 hdefaults
    obtain ⟨name, default⟩ := e
    cases default with
    | value v =>
      obtain ⟨d', hd', h⟩ := bind_eq_ok.1 h
      cases h
      exact Document.all_cons.2 ⟨he, ih hrest hd'⟩
    | computed f =>
      obtain ⟨v, hv, h⟩ := bind_eq_ok.1 h
      obtain ⟨d', hd', h⟩ := bind_eq_ok.1 h
      cases h
      exact Document.all_cons.2 ⟨he r hr v hv, ih hrest hd'⟩

theorem upholds_applyDefaults (hm : m.Settled I P) :
    (applyDefaults m).Upholds (Beside (Record.Settled I) P) fun _ => True := by
  refine upholds_record.bind fun r hr => ?_
  refine (Upholds.ofExcept fun _ => all_of_defaultEntries hr hm.defaults).bind
    fun defaults hdefaults => ?_
  split
  · exact upholds_modifyData fun d hd => hdefaults.merge d _ hd
  · exact .pure trivial

theorem upholds_assignId (hctx : ctx.Settled I P) :
    (assignId ctx m).Upholds (Beside (Record.Settled I) P) fun _ => True := by
  refine upholds_record.bind fun r _ => ?_
  split
  · exact (upholds_outside (Finder.upholds_nextId hctx)).bind fun id hid =>
      upholds_modifyData fun _ hd => hd.putField hid "id"
  · exact .pure trivial

/-- A stamp that may have been left out, and what is done after it. -/
theorem upholds_stampNow_bind (hctx : ctx.Settled I P) {c : Prop} [Decidable c] (column : Value)
    {next : Step σ α} {Q : α → Prop} (hnext : next.Upholds (Beside (Record.Settled I) P) Q) :
    (if c then do
      let now ← outside ctx.now
      stamp column now
      next
    else next).Upholds (Beside (Record.Settled I) P) Q := by
  split
  · exact (upholds_outside hctx.now).bind fun _ hnow =>
      (upholds_stamp hnow column).bind fun _ _ => hnext
  · exact hnext

theorem upholds_storeNew (hctx : ctx.Settled I P) (hm : m.Settled I P) (o : SaveOptions) :
    (storeNew ctx m o).Upholds (Beside (Record.Settled I) P) fun _ => True := by
  have hnone : ∀ r ∈ (none : Option Record), r.Settled I := by
    rintro r ⟨⟩
  refine (upholds_applyDefaults hm).bind fun _ _ => (upholds_assignId hctx).bind fun _ _ => ?_
  refine (upholds_outside hctx.now).bind fun now hnow => ?_
  refine (upholds_stamp hnow _).bind fun _ _ => (upholds_stamp hnow _).bind fun _ _ => ?_
  refine .ite_bind (Casting.upholds_castData hctx false) (fun _ => rfl) ?_
  refine (upholds_announceAll hctx _ _ hnone).bind fun _ _ => upholds_record.bind fun r hr => ?_
  have hop : (Operation.insertOne r.data).OnUtc I := List.forall_mem_singleton.2 (onUtc_data hr)
  refine (upholds_outside (hctx.request _ hop)).bind fun key hkey => ?_
  have hkey : Value.Settled I key := hkey key (List.mem_singleton.2 rfl)
  refine (Upholds.modify fun t ht => ⟨⟨ht.1.data.putField hkey "_id", ht.1.stored⟩, ht.2⟩).bind
    fun _ _ => ?_
  exact (upholds_announceAll hctx _ _ hnone).bind fun _ _ => .pure trivial

theorem upholds_storeChanged (hctx : ctx.Settled I P) (o : SaveOptions) :
    (storeChanged ctx m o).Upholds (Beside (Record.Settled I) P) fun _ => True := by
  refine .ite_bind (Casting.upholds_castData hctx _) (fun _ => rfl) ?_
  refine upholds_record.bind fun r hr => ?_
  have hold : ∀ old ∈ some (Record.ofData r.model r.stored), old.Settled I := by
    rintro old ⟨⟩
    exact Record.all_ofData r.model hr.stored
  simp only
  split
  · exact .pure trivial
  · refine upholds_stampNow_bind hctx m.updatedAt ?_
    exact (upholds_announceAll hctx _ _ hold).bind fun _ _ => (upholds_replace hctx).bind
      fun _ _ => (upholds_announceAll hctx _ _ hold).bind fun _ _ => .pure trivial

theorem upholds_store (hctx : ctx.Settled I P) (hm : m.Settled I P) {o : SaveOptions}
    (ho : o.changes.Settled I) :
    (store ctx m o).Upholds (Beside (Record.Settled I) P) fun _ => True := by
  have hmerge : ∀ changes : Document, changes.All .records (Moment.ShowsUtc I) →
      (modifyData (·.merge changes) : Step σ Unit).Upholds (Beside (Record.Settled I) P)
        fun _ => True :=
    fun changes hchanges => upholds_modifyData fun d hd => .merge changes d hd hchanges
  have hstore : ∀ r : Record, (if r.isNew then storeNew ctx m o else storeChanged ctx m o).Upholds
      (Beside (Record.Settled I) P) fun _ => True := by
    intro r
    split
    · exact upholds_storeNew hctx hm o
    · exact upholds_storeChanged hctx o
  unfold store
  simp only
  split
  · exact (Upholds.ofExcept fun _ => Value.all_of_entriesFor ho).bind fun changes hchanges =>
      (hmerge changes hchanges).bind fun _ _ => upholds_record.bind fun r _ => hstore r
  · exact upholds_record.bind fun r _ => hstore r

theorem upholds_logged (hctx : ctx.Settled I P) {act : Step σ α} {Q : α → Prop} (task : String)
    (hact : act.Upholds (Beside (Record.Settled I) P) Q) :
    (logged ctx m task act).Upholds (Beside (Record.Settled I) P) Q :=
  .tryCatch hact fun _ => (upholds_outside (hctx.log _).upholds).bind fun _ _ => .throw _

theorem upholds_syncSaved (hctx : ctx.Settled I P) (hbelow : below.Settled I P)
    (hm : m.Settled I P) (change : Sync.Change) :
    (syncSaved ctx below m change).Upholds (Beside (Record.Settled I) P) fun _ => True :=
  upholds_record.bind fun _ hr => .forM fun _ hrule =>
    upholds_outside (Sync.upholds_onSave hctx hbelow (hm.rules _ hrule) hr change)

theorem upholds_save (hctx : ctx.Settled I P) (hbelow : below.Settled I P) {o : SaveOptions}
    (ho : o.changes.Settled I) :
    (save ctx below o).Upholds (Beside (Record.Settled I) P) fun _ => True := by
  refine upholds_record.bind fun r _ => ?_
  have hm := hctx.models r.model
  refine (upholds_outside (Finder.upholds_requireBound _)).bind fun _ _ => ?_
  refine (upholds_logged hctx "save" (upholds_store hctx hm ho)).bind fun change _ => ?_
  cases change with
  | none => exact .pure trivial
  | some change =>
    exact (Upholds.modify fun t ht => ⟨⟨ht.1.data, ht.1.data⟩, ht.2⟩).bind fun _ _ =>
      upholds_syncSaved hctx hbelow hm change

/-! ## Deleting -/

theorem upholds_syncDestroyed (hctx : ctx.Settled I P) (hbelow : below.Settled I P)
    (hm : m.Settled I P) :
    (syncDestroyed ctx below m).Upholds (Beside (Record.Settled I) P) fun _ => True :=
  upholds_record.bind fun _ hr => .forM fun _ hrule =>
    upholds_outside (Sync.upholds_onDestroy hctx hbelow (hm.rules _ hrule) hr)

theorem upholds_discard (hctx : ctx.Settled I P) :
    (discard ctx m).Upholds (Beside (Record.Settled I) P) fun _ => True := by
  refine upholds_record.bind fun r hr => (upholds_outside hctx.now).bind fun now hnow => ?_
  have hop : (Operation.insertOne
      [(.text "document", .dict r.data), (.text "createdAt", .moment now)]).OnUtc I :=
    List.forall_mem_singleton.2 (Value.all_dict.2 (Document.all_cons.2 ⟨onUtc_data hr,
      Document.all_cons.2 ⟨Value.all_moment.2 hnow, Document.all_nil⟩⟩))
  exact (upholds_outside (hctx.request _ hop)).bind fun _ _ => .pure trivial

theorem upholds_remove (hctx : ctx.Settled I P) :
    (remove ctx m).Upholds (Beside (Record.Settled I) P) fun _ => True := by
  unfold remove
  split
  · exact upholds_replace hctx
  · refine upholds_record.bind fun r hr => ?_
    refine (Upholds.ofExcept fun _ => onUtc_of_keyFilter hr.data).bind fun filter hfilter => ?_
    have hop : (Operation.deleteOne filter).OnUtc I := List.forall_mem_singleton.2 hfilter
    exact (upholds_outside (hctx.request _ hop)).bind fun _ _ => .pure trivial

theorem upholds_announce (hctx : ctx.Settled I P) (event : Event) :
    (announce ctx m event none).Upholds (Beside (Record.Settled I) P) fun _ => True :=
  hctx.tell fun _ hl => hl.onRecord none (by rintro r ⟨⟩)

theorem upholds_withdraw (hctx : ctx.Settled I P) :
    (withdraw ctx m).Upholds (Beside (Record.Settled I) P) fun _ => True := by
  refine .ite_bind (upholds_discard hctx) (fun _ => rfl) ?_
  exact (upholds_announce hctx _).bind fun _ _ => (upholds_remove hctx).bind fun _ _ =>
    upholds_announce hctx _

theorem upholds_destroy (hctx : ctx.Settled I P) (hbelow : below.Settled I P) :
    (destroy ctx below).Upholds (Beside (Record.Settled I) P) fun _ => True := by
  refine upholds_record.bind fun r _ => ?_
  have hm := hctx.models r.model
  split
  · refine (upholds_outside (Finder.upholds_requireBound _)).bind fun _ _ => ?_
    refine upholds_stampNow_bind hctx (ctx.model r.model).deletedAt ?_
    exact (upholds_logged hctx "destroy" (upholds_withdraw hctx)).bind fun _ _ =>
      upholds_syncDestroyed hctx hbelow hm
  · exact .pure trivial

/-- Saving and deleting keep a record settled and hand over nothing but what is on UTC, through as
many records as there are. -/
theorem settled_cascade (hctx : ctx.Settled I P) (depth : Nat) :
    (cascade ctx depth).Settled I P := by
  induction depth with
  | zero => exact ⟨fun _ _ => .throw _, .throw _⟩
  | succ depth ih => exact ⟨fun _ ho => upholds_save hctx ih ho, upholds_destroy hctx ih⟩

end Lifecycle

end DocumentMapper
