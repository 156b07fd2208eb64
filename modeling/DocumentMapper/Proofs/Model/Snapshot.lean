import DocumentMapper.Proofs.Model.SaveCourse

/-!
# What a save notes as stored

A record carries the data that were last stored, so that a change can be told from them. A save
notes them at its end, after the listeners have heard of the write. What it notes is what was
written exactly if those listeners left the data of the record as they were.
-/

namespace DocumentMapper.Lifecycle

variable {σ : Type} {ctx : Context σ} {below : Cascade σ} {m : Model σ} {o : SaveOptions}
  {r r' : Record} {s s' : σ} {steps : List (Effect σ)} {ending : Ending} {t t' : Record × σ}

variable (ctx m) in
/-- A record is handed over to the database and has, after that, the data that were written. An
inserted document also has the identifier that the database gave it. -/
inductive Writes : Record × σ → Record × σ → Prop
  | inserted {r : Record} {s s' : σ} {key : Value} :
      (ctx.request m.collection (.insertOne r.data)).run s = (.ok key, s') →
      Writes (r, s) ({ r with data := r.data.putField "_id" key, restored := false }, s')
  | replaced {r : Record} {s s' : σ} {id : Value} {n : Int} :
      (Value.dict r.data).field "_id" = .ok id →
      (ctx.request m.collection (.replaceOne [(.text "_id", id)] r.data false)).run s =
        (.ok n, s') →
      Writes (r, s) (r, s')

theorem writes_of_act (h : (Effect.act ctx below m (writing r)).run t = (.ok (), t')) :
    Writes ctx m t t' := by
  obtain ⟨r₁, s₁⟩ := t
  unfold writing at h
  split at h
  · simp only [Effect.act] at h
    rw [run_bind_record] at h
    obtain ⟨key, ⟨r₂, s₂⟩, hrequest, hput⟩ := Action.run_bind_eq_ok.1 h
    obtain ⟨hrequest, rfl⟩ := Action.run_second_eq_iff.1 hrequest
    cases hput
    exact .inserted hrequest
  · simp only [Effect.act, replace] at h
    rw [run_bind_record] at h
    obtain ⟨id, s', n, rfl, hid, hrequest⟩ := exists_of_keyed h
    exact .replaced hid hrequest

/-- A save up to the step that writes. -/
theorem ordered_sending :
    Phase.Ordered Effect.stage 0 5 (.one .require :: (merging o ++ before ctx m o r)) :=
  Phase.Ordered.append (.one Effect.require) (ordered_merging.append ordered_before)

/-- Where listeners leave records as they are, or do not hear of the save, a record comes out of
telling them of the write as it was. -/
theorem eq_of_follows_after (hquiet : o.announce = false ∨ ctx.LeavesRecords)
    (h : Phase.Follows (Effect.act ctx below m) (after ctx m o r) t steps .finished t') :
    t'.1 = t.1 := by
  rcases hquiet with hsilent | hl
  · rw [after_silent hsilent] at h
    cases h
    rfl
  · have hrun := h.run_perform
    unfold after at hrun
    split at hrun
    · rw [(amount_hearing _ _ _ _ _ _).perform_eq] at hrun
      exact ((keeps_announceAll hl _ _ _).bind fun _ => .pure true) _ _ _ _ _ hrun
    · rw [(amount_hearing _ _ _ _ _ _).perform_eq] at hrun
      exact ((keeps_announceAll hl _ _ _).bind fun _ => .pure true) _ _ _ _ _ hrun

variable (ctx below) in
/-- A save that returns has either found that there is nothing to write or has written the record.
In that case the listeners hear of it, and what it notes as stored are the data that they leave,
which are those that were written exactly if they leave them as they are. -/
theorem save_snapshot_iff (hlog : ∀ entry s, ∃ s', (ctx.log entry).run s = (.ok (), s'))
    (hm : ctx.model r.model = m) (h : (save ctx below o).run (r, s) = (.ok (), r', s')) :
    (∃ steps, Phase.Follows (Effect.act ctx below m) (saving ctx m o r) (r, s) steps .stopped
      (r', s') ∧ ∀ step ∈ steps, step.stage < 5) ∨
    ∃ sent written heard,
      (∃ early, Phase.Follows (Effect.act ctx below m)
        (.one .require :: (merging o ++ before ctx m o (merged o r))) (r, s) early .finished sent) ∧
      Writes ctx m sent written ∧
      (∃ late, Phase.Follows (Effect.act ctx below m) (after ctx m o (merged o r)) written late
        .finished heard) ∧
      r' = { heard.1 with stored := heard.1.data } ∧
      (r'.stored = written.1.data ↔ heard.1.data = written.1.data) ∧
      (o.announce = false ∨ ctx.LeavesRecords → r'.stored = written.1.data) := by
  have hphases : saving ctx m o r = (.one .require :: (merging o ++ before ctx m o (merged o r))) ++
      .one (writing (merged o r)) :: (after ctx m o (merged o r) ++
        .one .keep :: syncing m (merged o r)) := by
    simp [saving, storing]
  obtain ⟨steps, ending, t, hfollows, hrun⟩ :=
    Phase.exists_follows (Effect.act ctx below m) (saving ctx m o r) (r, s)
  have hends := ends_save below (r := r) (o := o) hlog hm s
  rw [hrun, h] at hends
  cases ending with
  | failed e =>
    obtain ⟨s', hresult, -⟩ := hends
    cases hresult
  | stopped =>
    cases hends
    refine .inl ⟨steps, hfollows, ?_⟩
    rw [hphases] at hfollows
    obtain ⟨hfirst, -⟩ | ⟨first, last, t₁, -, -, hlast⟩ := hfollows.append
    · obtain ⟨whole, hfull, hinitial, -⟩ := hfirst.exists_full
      exact fun step hmem => ((ordered_sending.2 _ hfull).2 step (hinitial.subset hmem)).2
    · obtain ⟨test, hmem⟩ := hlast.exists_only
      have hhearing : ∀ wanted events old, .only test ∉ hearing ctx m wanted events old := by
        intro wanted events old
        cases wanted <;> simp [hearing]
      have hafter : .only test ∉ after ctx m o (merged o r) := by
        unfold after
        split
        · exact hhearing _ _ _
        · exact hhearing _ _ _
      simp [hafter, syncing] at hmem
  | finished =>
    cases hends
    rw [hphases] at hfollows
    obtain ⟨-, hending⟩ | ⟨early, last, sent, -, hearly, hlast⟩ := hfollows.append
    · exact absurd rfl hending
    · cases hlast with
      | one hwrite hlast =>
        obtain ⟨-, hending⟩ | ⟨late, last, heard, -, hlate, hlast⟩ := hlast.append
        · exact absurd rfl hending
        · have hr' := of_follows_finishing hlast
          simp only at hr'
          refine .inr ⟨sent, _, heard, ⟨early, hearly⟩, writes_of_act hwrite, ⟨late, hlate⟩, hr',
            ?_, fun hquiet => ?_⟩
          · rw [hr']
          · rw [hr', ← eq_of_follows_after hquiet hlate]

/-! ### A shop that somebody joins -/

/-- A shop that was stored without watchers and has one now. -/
def joined : Record :=
  { Sample.shop [Sample.person 1 "Ann"] with stored := (Sample.shop []).stored }

theorem save_snapshot_iff_joined :
    (∀ entry s, ∃ s', (Context.quiet.log entry).run s = (.ok (), s')) ∧
    ∃ sent written r', Writes Context.quiet (Context.quiet.model joined.model) sent written ∧
      (save Context.quiet (cascade Context.quiet 0) .standard).run (joined, ()) =
        (.ok (), r', ()) ∧ r'.stored = written.1.data := by
  have hlog : ∀ entry s, ∃ s', (Context.quiet.log entry).run s = (.ok (), s') :=
    fun _ s => ⟨s, rfl⟩
  rcases save_snapshot_iff Context.quiet (cascade Context.quiet 0) (o := .standard) (r := joined)
    (s := ()) hlog rfl rfl with ⟨steps, hstopped, -⟩ |
      ⟨sent, written, heard, -, hwrites, -, -, -, hquiet⟩
  · have hrun := hstopped.run_perform
    cases hrun
  · have hstored := hquiet (.inr fun _ _ _ _ _ hls l hmem => by cases hls; cases hmem)
    exact ⟨hlog, sent, written, _, hwrites, rfl, hstored⟩

/-- A listener that marks the records it hears of. -/
def marker {σ : Type} : Listener σ where
  onRecord _ := modifyData (·.putField "seen" (.bool true))
  onSearch _ := return
  onQuery := return
  onValues _ := return

/-- A database that keeps the documents it takes, and a listener that marks what was saved. -/
def marking : Context (List Document) :=
  { Context.sample [] fun d => do
      modify (· ++ [d])
      return 1 with
    listeners := fun id event =>
      return if id = .base ∧ event = .saved then [marker] else [] }

/-- The mark is not written, but noted as stored: the record does not count as changed. -/
theorem not_snapshot_joined : ∃ r' written,
    (save marking (cascade marking 0) .standard).run (joined, []) = (.ok (), r', [written]) ∧
    r'.stored ≠ written ∧ r'.isChanged = false := by
  refine ⟨_, _, rfl, ?_, rfl⟩
  intro h
  exact absurd (congrArg List.length h) (by decide)

end DocumentMapper.Lifecycle
