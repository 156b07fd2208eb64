import DocumentMapper.Proofs.Model.DestroyCourse

/-!
# Refused deletions

A deletion may fail before the document of the record is taken out: a listener that hears of it
refuses it, or a request fails. There is no way back for what was done until then. The record keeps
the mark of deleted records, and the copy in the trash stays there; nothing else was changed, unless
by the listeners themselves.

What the database holds is given by an observation of the state, which changes only where something
is written.
-/

namespace DocumentMapper

variable {σ δ : Type}

/-- What is observed of the state stays as it is where nothing is written: when the clock is read,
something is logged or listeners are looked up, and when a request fails. -/
structure Context.Steady (ctx : Context σ) (stored : σ → δ) : Prop where
  now : ∀ s, stored (ctx.now.run s).2 = stored s
  log : ∀ entry s, stored ((ctx.log entry).run s).2 = stored s
  listeners : ∀ id event s, stored ((ctx.listeners id event).run s).2 = stored s
  failed : ∀ q s e s', (ctx.execute q).run s = (.error e, s') → stored s' = stored s

/-- A listener that leaves the records it hears of as they are, and what is observed of the
state. -/
def Listener.Leaves (stored : σ → δ) (l : Listener σ) : Prop :=
  ∀ x, (l.onRecord none).Preserves fun t => (t.1, stored t.2) = x

namespace Lifecycle

variable {ctx : Context σ} {below : Cascade σ} {m : Model σ} {stored : σ → δ} {r r' : Record}
  {s s' : σ} {t t' : Record × σ} {steps : List (Removal σ)} {ending : Ending} {e : Error}

/-! ## What a deletion has done -/

/-- A record with the mark of deleted records. -/
def Marked (m : Model σ) (r r' : Record) : Prop :=
  m.deletedAt.isTruthy = true ∧
    ∃ time, r' = { r with data := r.data.put m.deletedAt (.moment time) }

variable (ctx m stored) in
/-- What a deletion has done before listeners hear of it: the record is marked if the model has a
column for that, and the trash has a copy of it if the model has a trash. -/
def Condemned (t t' : Record × σ) : Prop :=
  (if m.deletedAt.isTruthy then Marked m t.1 t'.1 else t'.1 = t.1) ∧
    if m.deletion = .trash then ∃ t₁, stored t₁.2 = stored t.2 ∧ Discards ctx m t₁ t'
    else stored t'.2 = stored t.2

variable (ctx below m) in
/-- A deletion comes as far as taking the document out of its collection. -/
def TakesOut (t : Record × σ) : Prop :=
  ∃ steps t', Phase.Follows (Removal.act ctx below m) (leading ctx m ++ [.one .remove]) t steps
    .finished t'

/-! ## Steps before the document is taken out -/

/-- The mark is written if the clock can be read, and nothing else is. -/
theorem marked_of_act (hsteady : ctx.Steady stored) (hmark : m.deletedAt.isTruthy = true)
    (h : (Removal.act ctx below m .mark).run t = (.ok (), t')) :
    Marked m t.1 t'.1 ∧ stored t'.2 = stored t.2 := by
  obtain ⟨r, s⟩ := t
  obtain ⟨time, ⟨r₁, s₁⟩, hnow, hstamp⟩ := Action.run_bind_eq_ok.1 h
  obtain ⟨hclock, rfl⟩ := Action.run_second_eq_iff.1 hnow
  unfold stamp at hstamp
  rw [if_pos hmark] at hstamp
  cases hstamp
  refine ⟨⟨hmark, time, rfl⟩, ?_⟩
  have hsame := hsteady.now s
  rwa [hclock] at hsame

theorem unmarked_of_act (hsteady : ctx.Steady stored)
    (h : (Removal.act ctx below m .mark).run t = (.error e, t')) :
    t'.1 = t.1 ∧ stored t'.2 = stored t.2 := by
  obtain ⟨r, s⟩ := t
  obtain ⟨r', s'⟩ := t'
  rcases Action.run_bind_eq_error.1 h with hnow | ⟨time, u, -, hstamp⟩
  · obtain ⟨hclock, rfl⟩ := Action.run_second_eq_iff.1 hnow
    have hsame := hsteady.now s
    rw [hclock] at hsame
    exact ⟨rfl, hsame⟩
  · unfold stamp at hstamp
    split at hstamp <;> cases hstamp

theorem undiscarded_of_act (hsteady : ctx.Steady stored)
    (h : (Removal.act ctx below m .discard).run t = (.error e, t')) :
    t'.1 = t.1 ∧ stored t'.2 = stored t.2 := by
  obtain ⟨r, s⟩ := t
  obtain ⟨r', s'⟩ := t'
  simp only [Removal.act, discard] at h
  rw [run_bind_record] at h
  have hsame := hsteady.now s
  rcases Action.run_bind_eq_error.1 h with hnow | ⟨time, t₁, hnow, h⟩
  · obtain ⟨hclock, rfl⟩ := Action.run_second_eq_iff.1 hnow
    rw [hclock] at hsame
    exact ⟨rfl, hsame⟩
  · obtain ⟨r₁, s₁⟩ := t₁
    obtain ⟨hclock, rfl⟩ := Action.run_second_eq_iff.1 hnow
    rw [hclock] at hsame
    rcases Action.run_bind_eq_error.1 h with hrequest | ⟨key, t₂, -, hdone⟩
    · obtain ⟨hinsert, rfl⟩ := Action.run_second_eq_iff.1 hrequest
      exact ⟨rfl, (hsteady.failed _ _ _ _ hinsert).trans hsame⟩
    · cases hdone

/-- A request about a record that fails leaves the record and what is stored as they were. -/
theorem same_of_keyed_error (hsteady : ctx.Steady stored) {operation : Document → Operation}
    {collection : String} (h : (do
      let filter ← Action.ofExcept (keyFilter r.data)
      let _ ← outside (ctx.request collection (operation filter)) : Step σ Unit).run (r, s) =
        (.error e, t')) :
    t'.1 = r ∧ stored t'.2 = stored s := by
  obtain ⟨r', s'⟩ := t'
  rcases Action.run_bind_eq_error.1 h with hfilter | ⟨filter, t₁, hfilter, h⟩
  · cases (Prod.mk.inj hfilter).2
    exact ⟨rfl, rfl⟩
  · cases (Prod.mk.inj hfilter).2
    rcases Action.run_bind_eq_error.1 h with hrequest | ⟨answer, t₂, -, hdone⟩
    · obtain ⟨hfailed, rfl⟩ := Action.run_second_eq_iff.1 hrequest
      exact ⟨rfl, hsteady.failed _ _ _ _ hfailed⟩
    · cases hdone

theorem unremoved_of_act (hsteady : ctx.Steady stored)
    (h : (Removal.act ctx below m .remove).run t = (.error e, t')) :
    t'.1 = t.1 ∧ stored t'.2 = stored t.2 := by
  obtain ⟨r, s⟩ := t
  simp only [Removal.act, remove] at h
  split at h
  · unfold replace at h
    rw [run_bind_record] at h
    exact same_of_keyed_error hsteady h
  · rw [run_bind_record] at h
    exact same_of_keyed_error hsteady h

/-! ## Parts of a deletion -/

/-- The first steps mark the record unless they fail, and write nothing. -/
theorem marks_of_follows (hsteady : ctx.Steady stored)
    (h : Phase.Follows (Removal.act ctx below m) (.one .require :: (marks m).map .one) t steps
      ending t') :
    stored t'.2 = stored t.2 ∧ (t'.1 = t.1 ∨ Marked m t.1 t'.1) ∧
      (ending = .finished → if m.deletedAt.isTruthy then Marked m t.1 t'.1 else t'.1 = t.1) := by
  cases h with
  | fail hrequire =>
    rw [eq_of_requireBound hrequire]
    exact ⟨rfl, .inl rfl, nofun⟩
  | one hrequire h =>
    rw [eq_of_requireBound hrequire] at h
    unfold marks at h
    split at h
    · next hmark =>
      cases h with
      | one hact h =>
        cases h
        obtain ⟨hmarked, hsame⟩ := marked_of_act hsteady hmark hact
        exact ⟨hsame, .inr hmarked, fun _ => by rwa [if_pos hmark]⟩
      | fail hact =>
        obtain ⟨hrecord, hsame⟩ := unmarked_of_act hsteady hact
        exact ⟨hsame, .inl hrecord, nofun⟩
    · next hmark =>
      cases h
      exact ⟨rfl, .inl rfl, fun _ => by rw [if_neg hmark]⟩

/-- The trash takes a copy if the model has one; if it does not, nothing is changed. -/
theorem discards_of_follows (hsteady : ctx.Steady stored)
    (h : Phase.Follows (Removal.act ctx below m) ((discards m).map .one) t steps ending t') :
    (ending = .finished → if m.deletion = .trash then Discards ctx m t t' else t' = t) ∧
      (ending ≠ .finished → t'.1 = t.1 ∧ stored t'.2 = stored t.2) := by
  unfold discards at h
  split at h
  · next htrash =>
    cases h with
    | one hact h =>
      cases h
      refine ⟨fun _ => ?_, fun h => absurd rfl h⟩
      rw [if_pos htrash]
      exact discards_of_act hact
    | fail hact => exact ⟨nofun, fun _ => undiscarded_of_act hsteady hact⟩
  · next htrash =>
    cases h
    exact ⟨fun _ => by rw [if_neg htrash], fun h => absurd rfl h⟩

/-- When the deletion fails after the copy for the trash, whatever was changed from then on was
changed by listeners. -/
theorem same_of_follows_heeding (hsteady : ctx.Steady stored)
    (h : Phase.Follows (Removal.act ctx below m) (heeding ctx m .deleting ++ [.one .remove]) t
      steps (.failed e) t')
    (hlisteners : ∀ id event l, .hear id event l ∈ steps → l.Leaves stored) :
    t'.1 = t.1 ∧ stored t'.2 = stored t.2 := by
  have hheeding : ∀ {told : List (Removal σ)} {ending : Ending} {u : Record × σ},
      Phase.Follows (Removal.act ctx below m) (heeding ctx m .deleting) t told ending u →
      (∀ id event l, .hear id event l ∈ told → l.Leaves stored) →
      (u.1, stored u.2) = (t.1, stored t.2) := by
    intro told ending u htold hleaves
    obtain ⟨whole, hfull, hinitial, -⟩ := htold.exists_full
    have hhears := hears_of_full_heeding hfull
    refine htold.preserves (P := fun u => (u.1, stored u.2) = (t.1, stored t.2)) ?_ ?_ rfl
    · intro step hmem
      have hstep := hhears step (hinitial.subset hmem)
      cases step with
      | hear id event l => exact hleaves id event l hmem _
      | _ => exact hstep.elim
    · intro find hmem
      obtain ⟨id, -, hfind⟩ := List.mem_flatMap.1 hmem
      cases List.mem_singleton.1 hfind
      refine Action.Preserves.bind (fun u hu => ?_) fun ls => .pure _
      rw [← hu]
      exact Prod.ext rfl (hsteady.listeners id .deleting u.2)
  obtain ⟨htold, -⟩ | ⟨told, last, t₁, rfl, htold, hlast⟩ := h.append
  · exact Prod.mk.inj (hheeding htold hlisteners)
  · have hsame := Prod.mk.inj (hheeding htold fun id event l hmem =>
      hlisteners id event l (List.mem_append_left _ hmem))
    cases hlast with
    | one _ hdone => cases hdone
    | fail hact =>
      obtain ⟨hrecord, hstored⟩ := unremoved_of_act hsteady hact
      exact ⟨hrecord.trans hsame.1, hstored.trans hsame.2⟩

/-- A deletion that does not come as far as taking the document out fails, with the error of the
step at which it ended. -/
theorem exists_follows_of_not_takesOut
    (hlog : ∀ entry s, ∃ s', (ctx.log entry).run s = (.ok (), s')) (hm : ctx.model r.model = m)
    (hkey : r.key.isTruthy = true) (h : (destroy ctx below).run (r, s) = (.error e, r', s'))
    (hkept : ¬ TakesOut ctx below m (r, s)) :
    ∃ steps t, Phase.Follows (Removal.act ctx below m) (leading ctx m ++ [.one .remove]) (r, s)
        steps (.failed e) t ∧
      r' = t.1 ∧ (s' = t.2 ∨ ∃ entry, (ctx.log entry).run t.2 = (.ok (), s')) := by
  obtain ⟨steps, ending, t, hfollows, -⟩ := Phase.exists_follows (Removal.act ctx below m)
    (leading ctx m ++ [.one .remove]) (r, s)
  cases ending with
  | finished => exact absurd ⟨steps, t, hfollows⟩ hkept
  | stopped =>
    obtain ⟨test, hmem⟩ := hfollows.exists_only
    have hnone : .only test ∉ destroying ctx m := only_notMem_destroying test
    rw [List.mem_append] at hmem
    exact absurd (List.mem_append.2 (hmem.imp_right fun hmem => by simp at hmem)) hnone
  | failed e' =>
    have hcourse := hfollows.append_failed (heeding ctx m .deleted ++ cleaning m)
    rw [List.append_assoc, List.singleton_append] at hcourse
    have hends := ends_destroy below hlog hm hkey s
    unfold destroying at hends
    rw [hcourse.run_perform, h] at hends
    obtain ⟨s₁, hresult, hlogged⟩ := hends
    cases hresult
    exact ⟨steps, t, hfollows, rfl, hlogged⟩

variable (ctx below) in
/-- A deletion that fails before the document is taken out has written nothing but a copy for the
trash, and that only if it came to telling the listeners. The record is as it was but for the mark
of deleted records, which it keeps. Whatever else has changed was changed by listeners. -/
theorem destroy_refused (hlog : ∀ entry s, ∃ s', (ctx.log entry).run s = (.ok (), s'))
    (hsteady : ctx.Steady stored) (hm : ctx.model r.model = m) (hkey : r.key.isTruthy = true)
    (h : (destroy ctx below).run (r, s) = (.error e, r', s'))
    (hkept : ¬ TakesOut ctx below m (r, s)) :
    (stored s' = stored s ∧ (r' = r ∨ Marked m r r')) ∨
    ∃ t told t', Condemned ctx m stored (r, s) t ∧
      Phase.Follows (Removal.act ctx below m) (heeding ctx m .deleting ++ [.one .remove]) t told
        (.failed e) t' ∧
      r' = t'.1 ∧ stored s' = stored t'.2 ∧
      ((∀ id event l, .hear id event l ∈ told → l.Leaves stored) →
        r' = t.1 ∧ stored s' = stored t.2) := by
  obtain ⟨steps, t', hfollows, rfl, hlogged⟩ :=
    exists_follows_of_not_takesOut hlog hm hkey h hkept
  have hs' : stored s' = stored t'.2 := by
    rcases hlogged with rfl | ⟨entry, hentry⟩
    · rfl
    · have hsame := hsteady.log entry t'.2
      rwa [hentry] at hsame
  have hphases : leading ctx m ++ [.one .remove] = (.one .require :: (marks m).map .one) ++
      ((discards m).map .one ++ (heeding ctx m .deleting ++ [.one .remove])) := by
    simp [leading, condemning]
  rw [hphases] at hfollows
  obtain ⟨hmarks, -⟩ | ⟨first, rest, t₁, rfl, hmarks, hrest⟩ := hfollows.append
  · obtain ⟨hstored, hrecord, -⟩ := marks_of_follows hsteady hmarks
    exact .inl ⟨hs'.trans hstored, hrecord⟩
  obtain ⟨hstored, hrecord, hmarked⟩ := marks_of_follows hsteady hmarks
  have hmarked := hmarked rfl
  obtain ⟨hdiscards, hending⟩ | ⟨second, told, t, rfl, hdiscards, htold⟩ := hrest.append
  · obtain ⟨hsame, hunwritten⟩ := (discards_of_follows hsteady hdiscards).2 hending
    rw [hsame, hs', hunwritten]
    exact .inl ⟨hstored, hrecord⟩
  refine .inr ⟨t, told, t', ?_, htold, rfl, hs', fun hlisteners => ?_⟩
  · have hcopy := (discards_of_follows hsteady hdiscards).1 rfl
    unfold Condemned
    by_cases htrash : m.deletion = .trash
    · rw [if_pos htrash] at hcopy ⊢
      have hcopied := hcopy
      obtain ⟨_, _, _, _, _, hsame⟩ := hcopied
      rw [hsame]
      exact ⟨hmarked, t₁, hstored, hcopy⟩
    · rw [if_neg htrash] at hcopy ⊢
      rw [hcopy]
      exact ⟨hmarked, hstored⟩
  · obtain ⟨hsame, hunwritten⟩ := same_of_follows_heeding hsteady htold hlisteners
    exact ⟨hsame, hs'.trans hunwritten⟩

/-! ### A shop that somebody wants to keep -/

/-- A listener that allows nothing. -/
def veto {σ : Type} : Listener σ where
  onRecord _ := throw (.raised "vetoed")
  onSearch _ := return
  onQuery := return
  onValues _ := return

/-- A database that keeps the documents it takes, and a listener that allows no deletion. -/
def vetoing : Context (List Document) :=
  { Context.sample [] fun _ => return 1 with
    execute := fun
      | ⟨_, .insertOne d⟩ => do
        modify (· ++ [d])
        return .int 1
      | ⟨_, .replaceOne _ d _⟩ => do
        modify (· ++ [d])
        return 1
      | _ => throw (.raised "refused")
    listeners := fun id event =>
      return if id = .base ∧ event = .deleting then [veto] else [] }

theorem steady_vetoing : vetoing.Steady id where
  now _ := rfl
  log _ _ := rfl
  listeners _ _ _ := rfl
  failed q s e s' h := by
    obtain ⟨collection, operation⟩ := q
    cases operation with
    | insertOne d => cases h
    | replaceOne filter d upsert => cases h
    | _ =>
      cases h
      rfl

/-- The copy is in the trash and the shop is marked, as it was when its deletion was refused. -/
theorem destroy_refused_vetoed :
    (∀ entry s, ∃ s', (vetoing.log entry).run s = (.ok (), s')) ∧ vetoing.Steady id ∧
    ∃ r' copies, (destroy vetoing (cascade vetoing 0)).run (Sample.shop [], []) =
        (.error (.raised "vetoed"), r', copies) ∧
      ¬ TakesOut vetoing (cascade vetoing 0) (vetoing.model "Shop") (Sample.shop [], []) ∧
      Condemned vetoing (vetoing.model "Shop") id (Sample.shop [], []) (r', copies) := by
  have hlog : ∀ entry s, ∃ s', (vetoing.log entry).run s = (.ok (), s') := fun _ s => ⟨s, rfl⟩
  have hcourse : Phase.Follows (Removal.act vetoing (cascade vetoing 0) (vetoing.model "Shop"))
      (leading vetoing (vetoing.model "Shop") ++ [.one .remove]) (Sample.shop [], [])
      [.require, .mark, .discard, .hear .base .deleting veto] (.failed (.raised "vetoed")) _ :=
    .one rfl (.one rfl (.one rfl (.each rfl (.each rfl (.fail rfl)))))
  have hkept : ¬ TakesOut vetoing (cascade vetoing 0) (vetoing.model "Shop")
      (Sample.shop [], []) := by
    rintro ⟨steps, t, htaken⟩
    cases (htaken.det hcourse).2.1
  refine ⟨hlog, steady_vetoing, _, _, rfl, hkept, ?_⟩
  rcases destroy_refused vetoing (cascade vetoing 0) hlog steady_vetoing rfl rfl rfl hkept with
    ⟨hunwritten, -⟩ | ⟨t, told, t', hcondemned, htold, -, -, hleft⟩
  · cases hunwritten
  · have hvetoed : Phase.Follows (Removal.act vetoing (cascade vetoing 0) (vetoing.model "Shop"))
        (heeding vetoing (vetoing.model "Shop") .deleting ++ [.one .remove]) t
        [.hear .base .deleting veto] (.failed (.raised "vetoed")) t :=
      .each rfl (.each rfl (.fail rfl))
    obtain ⟨rfl, -⟩ := htold.det hvetoed
    obtain ⟨hrecord, hstored⟩ := hleft fun id event l hmem => by
      cases List.mem_singleton.1 hmem
      exact fun _ _ ht => ht
    have ht : t = _ := Prod.ext hrecord.symm hstored.symm
    rwa [ht] at hcondemned

/-- A deletion that was refused has put a copy into the trash and marked the record, and the next
save stores the mark. -/
theorem not_untouched_vetoed : ∃ r' copy r'' written,
    (destroy vetoing (cascade vetoing 0)).run (Sample.shop [], []) =
      (.error (.raised "vetoed"), r', [copy]) ∧
    r'.data ≠ (Sample.shop []).data ∧
    (save vetoing (cascade vetoing 0) .standard).run (r', [copy]) = (.ok (), r'', [copy, written]) ∧
    (written.fieldOrNull "deletedAt").isTruthy = true :=
  ⟨_, _, _, _, rfl, fun h => absurd (congrArg List.length h) (by decide), rfl, rfl⟩

end Lifecycle

end DocumentMapper
