import DocumentMapper.Proofs.Model.Independence
import DocumentMapper.Proofs.Value.Equality

/-!
# Saving again after a failed fan-out

A save notes what it stored before the rules are gone through. So when a rule fails the record
already counts as stored, and a save that is called again compares it with that: it finds nothing
to write and does not come to the rules. The copies that the first save could not renew are renewed
by a later one only if the record has changed again, for every rule in what the rule watches.
-/

namespace DocumentMapper.Lifecycle

open Sync (Renewal Tour isDue)

variable {σ : Type} {ctx : Context σ} {below : Cascade σ} {m : Model σ} {o : SaveOptions}
  {r r' : Record} {s s' : σ} {first : List (Effect σ)} {t t' : Record × σ}

/-! ## What a save does before the rules -/

/-- What follows when a stored record has been found to differ from what was stored. -/
def changing (ctx : Context σ) (m : Model σ) (o : SaveOptions) (r : Record) :
    List (Phase (Record × σ) (Effect σ)) :=
  (if m.updatedAt.isTruthy then [.one (.stamp [m.updatedAt])] else []) ++
    (hearing ctx m o.announce [.updating, .saving] (some (.ofData r.model r.stored)) ++
      .one .replace ::
        hearing ctx m o.announce [.updated, .saved] (some (.ofData r.model r.stored)))

theorem storing_eq (hnew : r.isNew = false) : storing ctx m o r =
    casting m o.cast o.force ++ .only (fun (r, _) => r.isChanged) :: changing ctx m o r := by
  simp [storing, before, after, updating, writing, changing, hnew]

theorem only_notMem_changing (test : Record × σ → Bool) : .only test ∉ changing ctx m o r := by
  have hhearing : ∀ events old, .only test ∉ hearing ctx m o.announce events old := by
    intro events old
    cases o.announce <;> simp [hearing]
  unfold changing
  split <;> simp [hhearing]

theorem run_requireBound (hbound : ctx.bound = true) (t : Record × σ) :
    (outside (ctx.requireBound m.toSchema)).run t = (.ok (), t) := by
  unfold Context.requireBound
  rw [if_pos hbound]
  rfl

variable (below) in
/-- What a save does before the rules is to perform the phases that store a record. -/
theorem run_stores (hm : ctx.model r.model = m) (hbound : ctx.bound = true) (s : σ) :
    (stores ctx m o).run (r, s) = (do
      if ← Phase.perform (Effect.act ctx below m) (merging o ++ storing ctx m o (merged o r))
      then return some (changeOf (merged o r)) else return none :
        Step σ (Option Sync.Change)).run (r, s) := by
  rw [← run_store below hm s]
  exact Action.run_bind_ok (run_requireBound hbound (r, s))

/-- What a save does with a stored record once it has been compared with what was stored. -/
theorem run_stores_of_comparing (hm : ctx.model r.model = m) (hbound : ctx.bound = true)
    (hnew : (merged o r).isNew = false)
    (h : Phase.Follows (Effect.act ctx below m) (comparing m o) (r, s) first .finished t) :
    (stores ctx m o).run (r, s) = (do
      if ← Phase.perform (Effect.act ctx below m)
        (.only (fun (r, _) => r.isChanged) :: changing ctx m o (merged o r))
      then return some (changeOf (merged o r)) else return none :
        Step σ (Option Sync.Change)).run t := by
  have hcompared : (Phase.perform (Effect.act ctx below m)
      (merging o ++ casting m o.cast o.force)).run (r, s) = (.ok true, t) := by
    cases h with
    | one hrequire h =>
      rw [eq_of_requireBound hrequire] at h
      exact h.run_perform
  rw [run_stores below hm hbound, storing_eq hnew, ← List.append_assoc, Phase.perform_append,
    bind_assoc, Action.run_bind_ok hcompared, if_pos rfl]

/-- A stored record that is as it was stored is not written. -/
theorem run_stores_unchanged (hm : ctx.model r.model = m) (hbound : ctx.bound = true)
    (hnew : (merged o r).isNew = false)
    (h : Phase.Follows (Effect.act ctx below m) (comparing m o) (r, s) first .finished t)
    (hunchanged : t.1.isChanged = false) : (stores ctx m o).run (r, s) = (.ok none, t) := by
  have hstop : Phase.Follows (Effect.act ctx below m)
      (.only (fun (r, _) => r.isChanged) :: changing ctx m o (merged o r)) t [] .stopped t :=
    .stop hunchanged
  rw [run_stores_of_comparing hm hbound hnew h, Action.run_bind_ok hstop.run_perform]
  rfl

theorem run_stores_changed (hm : ctx.model r.model = m) (hbound : ctx.bound = true)
    (hnew : (merged o r).isNew = false)
    (h : Phase.Follows (Effect.act ctx below m) (comparing m o) (r, s) first .finished t)
    (hchanged : t.1.isChanged = true) {change : Option Sync.Change}
    (hstores : (stores ctx m o).run (r, s) = (.ok change, t')) :
    change = some (changeOf (merged o r)) := by
  rw [run_stores_of_comparing hm hbound hnew h, Phase.perform, bind_assoc,
    Action.run_bind_ok (Action.run_get t)] at hstores
  simp only [hchanged] at hstores
  obtain ⟨done, u, hperform, hdone⟩ := Action.run_bind_eq_ok.1 hstores
  cases Phase.Follows.eq_true_of_perform only_notMem_changing hperform
  cases hdone
  rfl

theorem only_notMem_comparing (test : Record × σ → Bool) : .only test ∉ comparing m o := by
  unfold comparing merging casting
  split <;> split <;> simp

variable (below) in
/-- A save that does not fail before the rules has come as far as comparing a stored record. -/
theorem exists_comparing (hm : ctx.model r.model = m) (hbound : ctx.bound = true)
    (hnew : (merged o r).isNew = false) {change : Option Sync.Change}
    (hstores : (stores ctx m o).run (r, s) = (.ok change, t')) :
    ∃ first t, Phase.Follows (Effect.act ctx below m) (comparing m o) (r, s) first .finished t := by
  obtain ⟨first, ending, t, h, -⟩ :=
    Phase.exists_follows (Effect.act ctx below m) (comparing m o) (r, s)
  cases ending with
  | finished => exact ⟨first, t, h⟩
  | stopped =>
    obtain ⟨test, hmem⟩ := h.exists_only
    exact absurd hmem (only_notMem_comparing test)
  | failed e =>
    cases h with
    | fail hrequire => cases (run_requireBound hbound _).symm.trans hrequire
    | one hrequire h =>
      rw [eq_of_requireBound hrequire] at h
      have hfailed := h.append_failed
        (.only (fun (r, _) => r.isChanged) :: changing ctx m o (merged o r))
      rw [run_stores below hm hbound, storing_eq hnew, ← List.append_assoc,
        Action.run_bind_error hfailed.run_perform] at hstores
      cases hstores

/-- Only a stored record is told to the rules as changed. -/
theorem updated_of_stores (hm : ctx.model r.model = m) (hbound : ctx.bound = true)
    {old : Option Record} (hstores : (stores ctx m o).run (r, s) = (.ok (some (.updated old)), t')) :
    (merged o r).isNew = false ∧ old = some (.ofData (merged o r).model (merged o r).stored) := by
  rw [run_stores (cascade ctx 0) hm hbound] at hstores
  obtain ⟨done, t, -, hdone⟩ := Action.run_bind_eq_ok.1 hstores
  cases done with
  | false => cases hdone
  | true =>
    have hchange : changeOf (merged o r) = .updated old :=
      Option.some.inj (Except.ok.inj (Prod.mk.inj hdone).1)
    unfold changeOf at hchange
    split at hchange
    · cases hchange
    · next hnew => exact ⟨Bool.eq_false_iff.2 hnew, (Sync.Change.updated.inj hchange).symm⟩

/-! ## What becomes of a save and of the next one -/

/-- Where a save comes as far as storing, the models have an executor. -/
theorem bound_of_stores {change : Option Sync.Change}
    (h : (stores ctx m o).run (r, s) = (.ok change, t')) : ctx.bound = true := by
  obtain ⟨⟨⟩, ⟨r₁, s₁⟩, hrequire, -⟩ := Action.run_bind_eq_ok.1 h
  have hbound := (Action.run_second_eq_iff.1 hrequire).1
  unfold Context.requireBound at hbound
  split at hbound
  · assumption
  · cases hbound

theorem merged_model : (merged o r).model = r.model := by
  unfold merged
  split <;> rfl

theorem merged_stored : (merged o r).stored = r.stored := by
  unfold merged
  split <;> rfl

/-- A save that returns has found nothing to write or has gone through all rules. -/
theorem exists_of_save (hm : ctx.model r.model = m)
    (h : (save ctx below o).run (r, s) = (.ok (), r', s')) :
    (stores ctx m o).run (r, s) = (.ok none, r', s') ∨
    ∃ change r₁ s₁ rounds, (stores ctx m o).run (r, s) = (.ok (some change), r₁, s₁) ∧
      r' = { r₁ with stored := r₁.data } ∧
      Tour ctx below r' (.saved change) m.rules s₁ rounds (.ok ()) s' := by
  have hsave := h
  unfold save at h
  rw [run_bind_record, hm] at h
  obtain ⟨⟨⟩, t, hrequire, h⟩ := Action.run_bind_eq_ok.1 h
  obtain ⟨change, ⟨r₁, s₁⟩, hstore, h⟩ := Action.run_bind_eq_ok.1 h
  have hstores : (stores ctx m o).run (r, s) = (.ok change, r₁, s₁) :=
    (Action.run_bind_ok hrequire).trans (run_logged_eq_ok hstore)
  cases change with
  | none =>
    cases h
    exact .inl hstores
  | some change =>
    obtain ⟨rounds, result, s₂, htour⟩ :=
      Sync.exists_tour ctx below { r₁ with stored := r₁.data } (.saved change) m.rules s₁
    rw [run_save_of_stores below hm hstores htour.run] at hsave
    cases hsave
    exact .inr ⟨change, r₁, s₁, rounds, hstores, rfl, htour⟩

variable (ctx below m) in
/-- A save that writes a stored record again and treats all targets that its rules find. -/
def TreatsAll (o : SaveOptions) (t : Record × σ) (s' : σ) : Prop :=
  ∃ old r₁ s₁ rounds, (stores ctx m o).run t = (.ok (some (.updated old)), r₁, s₁) ∧
    Tour ctx below { r₁ with stored := r₁.data } (.saved (.updated old)) m.rules s₁ rounds
      (.ok ()) s' ∧
    ∀ round ∈ rounds, ∃ turns, round = .treated turns

variable (ctx below m) in
/-- A save finds that a stored record differs from what was stored. -/
def FindsChanged (o : SaveOptions) (t : Record × σ) : Prop :=
  (merged o t.1).isNew = false ∧ ∃ first t', Phase.Follows (Effect.act ctx below m) (comparing m o) t
    first .finished t' ∧ t'.1.isChanged = true

/-- A save that returns has written the record again and treated all targets exactly if it found
the record changed, and changed for every rule. -/
theorem treatsAll_iff (hm : ctx.model r.model = m) (hbound : ctx.bound = true)
    (h : (save ctx below o).run (r, s) = (.ok (), r', s')) :
    TreatsAll ctx below m o (r, s) s' ↔ FindsChanged ctx below m o (r, s) ∧
      ∀ rule ∈ m.rules, isDue rule r' (some (.ofData r.model r.stored)) = .ok true := by
  constructor
  · rintro ⟨old, r₁, s₁, rounds, hstores, htour, htreated⟩
    obtain ⟨hnew, hold⟩ := updated_of_stores hm hbound hstores
    rw [merged_model, merged_stored] at hold
    obtain ⟨first, t, hfirst⟩ := exists_comparing below hm hbound hnew hstores
    refine ⟨⟨hnew, first, t, hfirst, ?_⟩, ?_⟩
    · by_contra hunchanged
      rw [run_stores_unchanged hm hbound hnew hfirst (Bool.eq_false_iff.2 hunchanged)] at hstores
      cases hstores
    · rw [run_save_of_stores below hm hstores htour.run] at h
      cases h
      rw [← hold]
      exact htour.treated_iff.1 htreated
  · rintro ⟨⟨hnew, first, t, hfirst, hchanged⟩, hdue⟩
    obtain hstores | ⟨change, r₁, s₁, rounds, hstores, hr', htour⟩ := exists_of_save hm h
    · cases run_stores_changed hm hbound hnew hfirst hchanged hstores
    · have hchange := Option.some.inj (run_stores_changed hm hbound hnew hfirst hchanged hstores)
      have hupdated : changeOf (merged o r) = .updated (some (.ofData r.model r.stored)) := by
        unfold changeOf
        rw [if_neg (by rw [hnew]; nofun), merged_model, merged_stored]
      rw [hchange, hupdated] at hstores htour
      refine ⟨_, r₁, s₁, rounds, hstores, hr' ▸ htour, htour.treated_iff.2 hdue⟩

theorem run_save_unchanged (hm : ctx.model r.model = m)
    (h : (stores ctx m o).run (r, s) = (.ok none, t)) :
    (save ctx below o).run (r, s) = (.ok (), t) := by
  obtain ⟨⟨⟩, t₁, hrequire, hstore⟩ := Action.run_bind_eq_ok.1 h
  unfold save
  rw [run_bind_record, hm, Action.run_bind_ok hrequire, Action.run_bind_ok (run_logged_ok hstore)]
  rfl

/-- A record that is as it was stored, with nothing to merge or to cast, is not touched by a
save. -/
theorem run_save_of_unchanged (hm : ctx.model r.model = m) (hbound : ctx.bound = true)
    (hnew : r.isNew = false) (hchanges : o.changes.isTruthy = false) (hcast : Uncast ctx o r)
    (hunchanged : r.isChanged = false) (s : σ) : (save ctx below o).run (r, s) = (.ok (), r, s) := by
  have hmerged : merged o r = r := by
    unfold merged
    rw [hchanges]
  have hcomparing : comparing m o = [.one .require] := by
    have hnothing : casting m o.cast o.force = ([] : List (Phase (Record × σ) (Effect σ))) := by
      rcases hcast with hcast | hcast
      · rw [hcast]
        rfl
      · rw [hm] at hcast
        simp [casting, hcast]
    simp [comparing, merging, hchanges, hnothing]
  have hcompared : Phase.Follows (Effect.act ctx below m) (comparing m o) (r, s) [.require]
      .finished (r, s) := by
    rw [hcomparing]
    exact .one (run_requireBound hbound (r, s)) .nil
  exact run_save_unchanged hm
    (run_stores_unchanged hm hbound (by rw [hmerged]; exact hnew) hcompared hunchanged)

/-- A record that counts as stored, with nothing to merge or to cast, is not touched by a save. -/
theorem run_save_stored (hm : ctx.model r.model = m) (hbound : ctx.bound = true)
    (hnew : r.isNew = false) (hchanges : o.changes.isTruthy = false) (hcast : Uncast ctx o r)
    (hsame : r.stored = r.data) (hplain : (Value.dict r.data).lacksRecords = true) (s : σ) :
    (save ctx below o).run (r, s) = (.ok (), r, s) := by
  refine run_save_of_unchanged hm hbound hnew hchanges hcast ?_ s
  have hself : (Value.dict r.data).equal (.dict r.data) = true := Value.same_self _ hplain
  unfold Record.isChanged
  rw [hsame, hself]
  rfl

variable (ctx below m) in
/-- When a save has written a stored record and fails after that, the record counts as stored. To
save it again does nothing at all, unless there is something to merge or to cast. Whenever a later
save returns, it has treated all targets of the rules again exactly if it found the record changed,
and changed for every rule; only then it has renewed all copies. -/
theorem save_again_iff {old : Option Record} {r₁ r₂ : Record} {s₁ s₂ : σ} {e : Error}
    (hm : ctx.model r.model = m)
    (hstores : (stores ctx m o).run (r, s) = (.ok (some (.updated old)), r₁, s₁))
    (hfailed : (save ctx below o).run (r, s) = (.error e, r₂, s₂)) (hm₂ : ctx.model r₂.model = m) :
    r₂ = { r₁ with stored := r₁.data } ∧
    (∀ o' s₃, r₂.isNew = false → o'.changes.isTruthy = false → Uncast ctx o' r₂ →
      (Value.dict r₂.data).lacksRecords = true →
      (save ctx below o').run (r₂, s₃) = (.ok (), r₂, s₃)) ∧
    ∀ o' s₃ r₃ s₄, (save ctx below o').run (r₂, s₃) = (.ok (), r₃, s₄) →
      (TreatsAll ctx below m o' (r₂, s₃) s₄ ↔ FindsChanged ctx below m o' (r₂, s₃) ∧
        ∀ rule ∈ m.rules, isDue rule r₃ (some (.ofData r₂.model r₂.stored)) = .ok true) ∧
      (TreatsAll ctx below m o' (r₂, s₃) s₄ → ∃ s', Renewal ctx below r₃ m.rules s' s₄) := by
  have hbound := bound_of_stores hstores
  obtain ⟨rounds, result, s', htour⟩ :=
    Sync.exists_tour ctx below { r₁ with stored := r₁.data } (.saved (.updated old)) m.rules s₁
  rw [run_save_of_stores below hm hstores htour.run] at hfailed
  cases hfailed
  refine ⟨rfl, fun o' s₃ hnew hchanges hcast hplain => ?_, fun o' s₃ r₃ s₄ hagain => ⟨?_, ?_⟩⟩
  · exact run_save_stored hm₂ hbound hnew hchanges hcast rfl hplain s₃
  · exact treatsAll_iff hm₂ hbound hagain
  · rintro ⟨old', r₄, s₅, rounds', hstores', htour', htreated⟩
    rw [run_save_of_stores below hm₂ hstores' htour'.run] at hagain
    cases hagain
    exact ⟨s₅, htour'.renewal (htour'.treated_iff.1 htreated)⟩

/-! ### A customer who is renamed once more -/

/-- Another name for the customer. -/
def anna : SaveOptions :=
  { SaveOptions.standard with changes := .dict [(.text "name", .text "Anna")] }

/-- One order was not brought up to date with the new name of the customer. When the customer is
saved with yet another name, all orders are. -/
theorem save_again_iff_anna :
    (stores (bills 2) ((bills 2).model "Customer") .standard).run (renamed, []) =
      (.ok (some newName), renamed, [.int 9]) ∧
    (save (bills 2) (cascade (bills 2) 1) .standard).run (renamed, []) =
      (.error refusal, noted, [.int 9, .int 31, .int 32]) ∧
    ∃ r' tried, (save (bills 2) (cascade (bills 2) 1) anna).run
        (noted, [.int 9, .int 31, .int 32]) = (.ok (), r', tried) ∧
      TreatsAll (bills 2) (cascade (bills 2) 1) ((bills 2).model "Customer") anna
        (noted, [.int 9, .int 31, .int 32]) tried := by
  have hfound : FindsChanged (bills 2) (cascade (bills 2) 1) ((bills 2).model "Customer") anna
      (noted, [.int 9, .int 31, .int 32]) :=
    ⟨rfl, _, _, .one rfl (.one rfl .nil), rfl⟩
  obtain ⟨-, -, hagain⟩ := save_again_iff (bills 2) (cascade (bills 2) 1)
    ((bills 2).model "Customer") rfl stores_renamed run_save_renamed rfl
  refine ⟨stores_renamed, run_save_renamed, _, _, rfl, ?_⟩
  refine (hagain anna _ _ _ rfl).1.2 ⟨hfound, fun rule hmem => ?_⟩
  have hrule : rule = buyerRule ∨ rule = payerRule := by simpa [bills] using hmem
  rcases hrule with rfl | rfl <;> rfl

/-- An order was not brought up to date, and the search still finds it with the old name. When the
customer is just saved again, it stays like that. -/
theorem not_treatsAll_renamed :
    (save (bills 2) (cascade (bills 2) 1) .standard).run (renamed, []) =
      (.error refusal, noted, [.int 9, .int 31, .int 32]) ∧
    (Sync.search (bills 2) buyerRule noted).run [.int 9, .int 31, .int 32] =
      (.ok oldBills, [.int 9, .int 31, .int 32]) ∧
    (save (bills 2) (cascade (bills 2) 1) .standard).run (noted, [.int 9, .int 31, .int 32]) =
      (.ok (), noted, [.int 9, .int 31, .int 32]) ∧
    ¬ TreatsAll (bills 2) (cascade (bills 2) 1) ((bills 2).model "Customer") .standard
      (noted, [.int 9, .int 31, .int 32]) [.int 9, .int 31, .int 32] := by
  have hstores : (stores (bills 2) ((bills 2).model "Customer") .standard).run
      (noted, [.int 9, .int 31, .int 32]) = (.ok none, noted, [.int 9, .int 31, .int 32]) := rfl
  refine ⟨run_save_renamed, rfl, rfl, ?_⟩
  rintro ⟨old, r₁, s₁, rounds, hstored, -⟩
  cases hstores.symm.trans hstored

end DocumentMapper.Lifecycle
