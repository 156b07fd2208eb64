import DocumentMapper.Model.Lifecycle

/-!
# Saving a stored record

Saving a record that is stored already writes the time of the change into it and nothing else, as
long as listeners leave records as they are. Whatever happens outside of the record, in the
database or to other records that hold copies of it, does not touch it.
-/

namespace DocumentMapper

namespace Action

variable {σ τ α β : Type}

/-- An action that, if it succeeds, leaves the first part of its state as it is. -/
def Keeps (act : Action (τ × σ) α) : Prop :=
  ∀ t s a t' s', act.run (t, s) = (.ok a, t', s') → t' = t

namespace Keeps

theorem pure (a : α) : Keeps (σ := σ) (τ := τ) (Pure.pure a) := by
  intro t s b t' s' h
  cases h
  rfl

theorem ofExcept (outcome : Except Error α) : Keeps (σ := σ) (τ := τ) (ofExcept outcome) := by
  intro t s a t' s' h
  cases h
  rfl

theorem second (act : Action σ α) : Keeps (τ := τ) (second act) := by
  intro t s a t' s' h
  exact (Prod.mk.inj (Prod.mk.inj h).2).1.symm

theorem bind {act : Action (τ × σ) α} {next : α → Action (τ × σ) β} (h : Keeps act)
    (hnext : ∀ a, Keeps (next a)) : Keeps (act >>= next) := by
  intro t s b t' s' hrun
  obtain ⟨a, ⟨t₁, s₁⟩, hact, hrun⟩ := run_bind_eq_ok.1 hrun
  rw [hnext a t₁ s₁ b t' s' hrun, h t s a t₁ s₁ hact]

theorem forM {γ : Type} {f : γ → Action (τ × σ) PUnit} {l : List γ} (h : ∀ x ∈ l, Keeps (f x)) :
    Keeps (l.forM f) := by
  induction l with
  | nil => exact pure ()
  | cons x rest ih =>
    exact (h x List.mem_cons_self).bind fun _ => ih fun y hy => h y (List.mem_cons_of_mem _ hy)

end Keeps

end Action

/-- Listeners that hear of records leave them as they are. -/
def Context.LeavesRecords {σ : Type} (ctx : Context σ) : Prop :=
  ∀ id event s ls s', (ctx.listeners id event).run s = (.ok ls, s') →
    ∀ l ∈ ls, ∀ old, (l.onRecord old).Keeps

namespace Lifecycle

variable {σ : Type} {ctx : Context σ} {below : Cascade σ} {m : Model σ} {o : SaveOptions}
  {r r' : Record} {s s' : σ}

theorem keeps_announce (hl : ctx.LeavesRecords) (event : Event) (old : Option Record) :
    (announce ctx m event old).Keeps := by
  refine Action.Keeps.forM fun id _ => ?_
  intro r s a r' s' h
  obtain ⟨ls, ⟨r₁, s₁⟩, hls, h⟩ := Action.run_bind_eq_ok.1 h
  obtain ⟨hresult, hstate⟩ := Prod.mk.inj hls
  obtain ⟨rfl, rfl⟩ := Prod.mk.inj hstate
  exact Action.Keeps.forM (fun l hmem => hl id event s ls _ (Prod.ext hresult rfl) l hmem old)
    _ _ _ _ _ h

theorem keeps_announceAll (hl : ctx.LeavesRecords) (wanted : Bool) (events : List Event)
    (old : Option Record) : (announceAll ctx wanted m events old).Keeps := by
  unfold announceAll
  split
  · exact Action.Keeps.forM fun event _ => keeps_announce hl event old
  · exact .pure ()

theorem keeps_record : (record (σ := σ)).Keeps := by
  intro r s a r' s' h
  cases h
  rfl

theorem keeps_replace : (replace ctx m).Keeps :=
  keeps_record.bind fun _ => (Action.Keeps.ofExcept _).bind fun _ =>
    (Action.Keeps.second _).bind fun _ => .pure ()

/-- Telling listeners before and after the document is replaced. -/
theorem keeps_announced_replace (hl : ctx.LeavesRecords) {α : Type} (wanted : Bool)
    (before after : List Event) (old : Option Record) (a : α) : (do
      announceAll ctx wanted m before old
      replace ctx m
      announceAll ctx wanted m after old
      return a : Step σ α).Keeps :=
  (keeps_announceAll hl wanted before old).bind fun _ => keeps_replace.bind fun _ =>
    (keeps_announceAll hl wanted after old).bind fun _ => .pure a

/-- Data are as they were but perhaps for the time of the change. -/
def Stamped (m : Model σ) (d d' : Document) : Prop :=
  d' = d ∨ ∃ time, d' = d.put m.updatedAt (.moment time)

/-- Saves that cast nothing: it is not wanted, or the model of the record declares no casts. -/
def Uncast (ctx : Context σ) (o : SaveOptions) (r : Record) : Prop :=
  o.cast = false ∨ (ctx.model r.model).casts = []

theorem run_castData (h : (ctx.model r.model).casts = []) (force : Bool) (s : σ) :
    (Casting.castData ctx force).run (r, s) = (.ok (), r, s) := by
  unfold Casting.castData
  rw [Action.run_bind_ok (Action.run_get _)]
  simp only [h]
  rfl

theorem run_storeChanged_uncast (h : Uncast ctx o r) : (storeChanged ctx m o).run (r, s) =
    (storeChanged ctx m { o with cast := false }).run (r, s) := by
  unfold storeChanged
  cases hcast : o.cast with
  | false => rfl
  | true =>
    have hnone := h.resolve_left (by rw [hcast]; nofun)
    rw [if_pos rfl, Action.run_bind_ok (run_castData hnone o.force s)]
    rfl

theorem stamped_of_storeChanged (hl : ctx.LeavesRecords) (hcast : Uncast ctx o r)
    {change : Option Sync.Change} (h : (storeChanged ctx m o).run (r, s) = (.ok change, r', s')) :
    Stamped m r.data r'.data := by
  rw [run_storeChanged_uncast hcast] at h
  unfold storeChanged at h
  obtain ⟨r₁, ⟨r₂, s₁⟩, hrecord, h⟩ := Action.run_bind_eq_ok.1 h
  cases hrecord
  split at h
  · cases h
    exact .inl rfl
  · split at h
    · next htruthy =>
      obtain ⟨time, ⟨r₁, s₁⟩, hnow, h⟩ := Action.run_bind_eq_ok.1 h
      obtain ⟨⟨⟩, ⟨r₂, s₂⟩, hstamp, h⟩ := Action.run_bind_eq_ok.1 h
      have hr₁ : r₁ = r := Action.Keeps.second _ _ _ _ _ _ hnow
      unfold stamp at hstamp
      rw [if_pos htruthy] at hstamp
      cases hstamp
      rw [keeps_announced_replace hl _ _ _ _ _ _ _ _ _ _ h, hr₁]
      exact .inr ⟨time, rfl⟩
    · rw [keeps_announced_replace hl _ _ _ _ _ _ _ _ _ _ h]
      exact .inl rfl

theorem keeps_syncSaved (change : Sync.Change) : (syncSaved ctx below m change).Keeps :=
  keeps_record.bind fun _ => .forM fun _ _ => .second _

theorem run_logged_eq_ok {α : Type} {task : String} {act : Step σ α} {a : α}
    (h : (logged ctx m task act).run (r, s) = (.ok a, r', s')) :
    act.run (r, s) = (.ok a, r', s') :=
  Action.run_tryCatch_throw_eq_ok.1 h

/-- Saving a record that is stored, without changes and without casts, keeps its data but for the
time of the change. -/
theorem stamped_of_save (hl : ctx.LeavesRecords) (hcast : Uncast ctx o r)
    (hchanges : o.changes.isTruthy = false) (hnew : r.isNew = false)
    (h : (save ctx below o).run (r, s) = (.ok (), r', s')) :
    Stamped (ctx.model r.model) r.data r'.data := by
  unfold save at h
  obtain ⟨r₁, ⟨r₂, s₁⟩, hrecord, h⟩ := Action.run_bind_eq_ok.1 h
  cases hrecord
  obtain ⟨⟨⟩, ⟨r₁, s₁⟩, hbound, h⟩ := Action.run_bind_eq_ok.1 h
  obtain ⟨change, ⟨r₂, s₂⟩, hstore, h⟩ := Action.run_bind_eq_ok.1 h
  obtain rfl : r₁ = r := Action.Keeps.second _ _ _ _ _ _ hbound
  have hstamped : Stamped (ctx.model r₁.model) r₁.data r₂.data := by
    have hstore := run_logged_eq_ok hstore
    unfold store at hstore
    simp only [hchanges] at hstore
    obtain ⟨r₃, ⟨r₄, s₃⟩, hrecord, hstore⟩ := Action.run_bind_eq_ok.1 hstore
    cases hrecord
    simp only [hnew] at hstore
    exact stamped_of_storeChanged hl hcast hstore
  cases change with
  | none =>
    cases h
    exact hstamped
  | some change =>
    obtain ⟨⟨⟩, ⟨r₃, s₃⟩, hmodify, h⟩ := Action.run_bind_eq_ok.1 h
    cases hmodify
    rw [keeps_syncSaved change _ _ _ _ _ h]
    exact hstamped

end Lifecycle

end DocumentMapper
