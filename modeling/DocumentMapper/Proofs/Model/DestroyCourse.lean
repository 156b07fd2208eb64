import DocumentMapper.Proofs.Model.SaveCourse

/-!
# The course of a deletion

A deletion is a procedure like a save. It marks the record, puts a copy into the trash if the model
has one, tells the listeners, takes the document out of its collection or stores the mark there,
tells the listeners again and goes through the rules. `destroying` writes its phases down and
`destroy` is shown to perform just these, so that a document that goes is in the trash before, and
no rule cleans up after a document that stays.
-/

namespace DocumentMapper.Lifecycle

variable {σ : Type} (ctx : Context σ) (below : Cascade σ) (m : Model σ)

/-- The steps of a deletion. -/
inductive Removal (σ : Type) where
  /-- Finds out that the models have an executor. -/
  | require
  /-- Writes the time into the column of deleted records. -/
  | mark
  /-- Puts a copy of the record into the trash. -/
  | discard
  /-- One listener of a registry hears of an event. -/
  | hear (id : RegistryId) (event : Event) (listener : Listener σ)
  /-- Takes the document out of its collection, or stores its mark there. -/
  | remove
  | clean (rule : Sync.Rule σ)

namespace Removal

/-- What a step does. -/
def act : Removal σ → Step σ Unit
  | require => outside (ctx.requireBound m.toSchema)
  | mark => do stamp m.deletedAt (← outside ctx.now)
  | discard => Lifecycle.discard ctx m
  | hear _ _ listener => listener.onRecord none
  | remove => Lifecycle.remove ctx m
  | clean rule => do
    let r ← record
    outside (Sync.onDestroy ctx below rule r)

end Removal

/-! ## The phases of a deletion -/

/-- The listeners of the model, and then those of the base, that hear of an event. -/
def heeding (event : Event) : List (Phase (Record × σ) (Removal σ)) :=
  m.registries.flatMap fun id => [.each do
    let ls ← outside (ctx.listeners id event)
    return ls.map (.hear id event)]

def marks : List (Removal σ) :=
  if m.deletedAt.isTruthy then [.mark] else []

def discards : List (Removal σ) :=
  if m.deletion = .trash then [.discard] else []

/-- The phases before the document is taken out of its collection. -/
def condemning : List (Phase (Record × σ) (Removal σ)) :=
  (discards m).map .one ++ heeding ctx m .deleting

/-- The rules one after another, in the order of their declaration. -/
def cleaning : List (Phase (Record × σ) (Removal σ)) :=
  (m.rules.map Removal.clean).map .one

/-- What a deletion does before it takes the document out of its collection. -/
def leading : List (Phase (Record × σ) (Removal σ)) :=
  .one .require :: ((marks m).map .one ++ condemning ctx m)

/-- All phases of a deletion. -/
def destroying : List (Phase (Record × σ) (Removal σ)) :=
  leading ctx m ++ .one .remove :: (heeding ctx m .deleted ++ cleaning m)

variable {ctx below m} {r r' : Record} {s s' : σ} {t t' : Record × σ}
  {steps whole : List (Removal σ)} {ending : Ending}

/-! ## A deletion performs its phases -/

variable (ctx below m) in
theorem amount_heeding (event : Event) :
    Phase.Amount (Removal.act ctx below m) (heeding ctx m event) (announce ctx m event none) := by
  refine .flatMap m.registries fun id _ => ?_
  have heach := Phase.Amount.each (Removal.act ctx below m)
    (do let ls ← outside (ctx.listeners id event); return ls.map (.hear id event))
  simp only [bind_assoc, pure_bind, List.forM_eq_forM, List.forM_map] at heach
  exact heach

variable (ctx m) in
/-- Marks a record as deleted, if the model has a column for it. -/
def markDeleted : Step σ Unit :=
  if m.deletedAt.isTruthy then (do stamp m.deletedAt (← outside ctx.now)) else return

variable (ctx below m) in
theorem amount_marks :
    Phase.Amount (Removal.act ctx below m) ((marks m).map .one) (markDeleted ctx m) := by
  unfold marks markDeleted
  split
  · exact .one _ Removal.mark
  · exact .nil

variable (ctx below m) in
theorem amount_discards :
    Phase.Amount (Removal.act ctx below m) ((discards m).map .one)
      (if m.deletion = .trash then discard ctx m else return) := by
  unfold discards
  split
  · exact .one _ Removal.discard
  · exact .nil

variable (ctx below m) in
theorem amount_withdrawing :
    Phase.Amount (Removal.act ctx below m)
      (condemning ctx m ++ .one .remove :: heeding ctx m .deleted) (withdraw ctx m) := by
  have hbefore := (amount_discards ctx below m).append (amount_heeding ctx below m .deleting)
  have hafter := (Phase.Amount.one (Removal.act ctx below m) .remove).append
    (amount_heeding ctx below m .deleted)
  have hall := hbefore.append hafter
  unfold withdraw
  split
  · next htrash => simpa [htrash, condemning, Removal.act] using hall
  · next htrash => simpa [htrash, condemning, Removal.act] using hall

variable (ctx below m) in
theorem amount_cleaning :
    Phase.Amount (Removal.act ctx below m) (cleaning m) (syncDestroyed ctx below m) := by
  have hrules := Phase.Amount.ones (Removal.act ctx below m) (m.rules.map Removal.clean)
  have hsame := forM_record_outside (fun rule r => Sync.onDestroy ctx below rule r) m.rules
  rw [List.forM_eq_forM, List.forM_map] at hrules
  simp only [Removal.act] at hrules
  rw [List.forM_eq_forM] at hsame
  rw [hsame] at hrules
  exact hrules

/-- What a step comes to is what the course comes to with it, if what follows is. -/
theorem ends_bind {act next : Step σ Unit} {course : Step σ Bool}
    (h : ∀ t', act.run t = (.ok (), t') → Ends ctx (course.run t') (next.run t')) :
    Ends ctx ((do act; course).run t) ((do act; next).run t) := by
  rcases hact : act.run t with ⟨e | ⟨⟩, t'⟩
  · rw [Action.run_bind_error hact, Action.run_bind_error hact]
    exact ⟨t'.2, rfl, .inl rfl⟩
  · rw [Action.run_bind_ok hact, Action.run_bind_ok hact]
    exact h t' hact

/-- The same of a step whose failure is logged. -/
theorem ends_logged_bind {act next : Step σ Unit} {course : Step σ Bool} {task : String}
    (hlog : ∀ entry s, ∃ s', (ctx.log entry).run s = (.ok (), s'))
    (h : ∀ t', act.run t = (.ok (), t') → Ends ctx (course.run t') (next.run t')) :
    Ends ctx ((do act; course).run t) ((do logged ctx m task act; next).run t) := by
  rcases hact : act.run t with ⟨e | ⟨⟩, t'⟩
  · obtain ⟨s', hlogged, hentry⟩ := ends_logged (m := m) task hlog hact
    rw [Action.run_bind_error hact, Action.run_bind_error hlogged]
    exact ⟨s', rfl, .inr hentry⟩
  · rw [Action.run_bind_ok hact, Action.run_bind_ok (run_logged_ok hact)]
    exact h t' hact

theorem ends_last {act : Step σ Unit} :
    Ends ctx ((do act; return true).run t) (act.run t) := by
  rcases hact : act.run t with ⟨e | ⟨⟩, t'⟩
  · rw [Action.run_bind_error hact]
    exact ⟨t'.2, rfl, .inl rfl⟩
  · rw [Action.run_bind_ok hact]
    rfl

variable (below) in
/-- What the deletion of a record that was stored does. -/
theorem run_destroy (hm : ctx.model r.model = m) (hkey : r.key.isTruthy = true) (s : σ) :
    (destroy ctx below).run (r, s) = (do
      outside (ctx.requireBound m.toSchema)
      markDeleted ctx m
      logged ctx m "destroy" (withdraw ctx m)
      syncDestroyed ctx below m : Step σ Unit).run (r, s) := by
  unfold destroy markDeleted
  rw [run_bind_record, if_pos hkey, hm]
  by_cases hmark : m.deletedAt.isTruthy = true
  · simp [hmark]
  · simp [hmark]

variable (below) in
/-- A deletion of a record that was stored performs its phases. -/
theorem ends_destroy (hlog : ∀ entry s, ∃ s', (ctx.log entry).run s = (.ok (), s'))
    (hm : ctx.model r.model = m) (hkey : r.key.isTruthy = true) (s : σ) :
    Ends ctx ((Phase.perform (Removal.act ctx below m) (destroying ctx m)).run (r, s))
      ((destroy ctx below).run (r, s)) := by
  have hphases : Phase.perform (Removal.act ctx below m) (destroying ctx m) = (do
      outside (ctx.requireBound m.toSchema)
      markDeleted ctx m
      withdraw ctx m
      syncDestroyed ctx below m
      return true) := by
    have hall := ((amount_marks ctx below m).append (amount_withdrawing ctx below m)).append
      (amount_cleaning ctx below m)
    have hperform := hall.perform_eq
    simp only [List.append_assoc, List.cons_append] at hperform
    rw [destroying, leading, List.cons_append, List.append_assoc, Phase.perform, hperform]
    simp [Removal.act]
  rw [hphases, run_destroy below hm hkey]
  refine ends_bind fun _ _ => ?_
  refine ends_bind fun _ _ => ?_
  refine ends_logged_bind hlog fun _ _ => ?_
  exact ends_last

/-! ## The order of the steps -/

/-- A listener of one of the model's registries hears of an event. -/
def Removal.Hears (m : Model σ) (event : Event) : Removal σ → Prop
  | hear id event' _ => id ∈ m.registries ∧ event' = event
  | _ => False

theorem hears_of_full_heeding {event : Event} (h : Phase.Full (heeding ctx m event) whole) :
    ∀ step ∈ whole, step.Hears m event := by
  refine h.forall fun phase hmem => ?_
  obtain ⟨id, hid, hphase⟩ := List.mem_flatMap.1 hmem
  rw [List.mem_singleton] at hphase
  subst hphase
  intro t found t' hfound step hstep
  obtain ⟨ls, t₁, -, hls⟩ := Action.run_bind_eq_ok.1 hfound
  cases hls
  obtain ⟨l, -, rfl⟩ := List.mem_map.1 hstep
  exact ⟨hid, rfl⟩

/-- What the steps before the document is taken out are. -/
theorem exists_of_full_leading (h : Phase.Full (leading ctx m) whole) :
    ∃ told, whole = .require :: (marks m ++ discards m ++ told) ∧
      ∀ step ∈ told, step.Hears m .deleting := by
  unfold leading condemning at h
  cases h with
  | one h =>
    obtain ⟨marked, condemned, rfl, hmarked, hcondemned⟩ := Phase.Full.append_iff.1 h
    obtain ⟨discarded, told, rfl, hdiscarded, htold⟩ := Phase.Full.append_iff.1 hcondemned
    rw [hmarked.of_ones, hdiscarded.of_ones]
    exact ⟨told, by simp, hears_of_full_heeding htold⟩

/-- What a full course of a deletion looks like. -/
theorem exists_of_full_destroying (h : Phase.Full (destroying ctx m) whole) :
    ∃ told heard, whole = .require :: (marks m ++ discards m ++ told) ++
        .remove :: heard ++ m.rules.map .clean ∧
      (∀ step ∈ told, step.Hears m .deleting) ∧ ∀ step ∈ heard, step.Hears m .deleted := by
  unfold destroying at h
  obtain ⟨first, last, rfl, hfirst, hlast⟩ := Phase.Full.append_iff.1 h
  obtain ⟨told, rfl, htold⟩ := exists_of_full_leading hfirst
  cases hlast with
  | one hlast =>
    obtain ⟨heard, cleaned, rfl, hheard, hcleaned⟩ := Phase.Full.append_iff.1 hlast
    rw [hcleaned.of_ones]
    exact ⟨told, heard, by simp, htold, hears_of_full_heeding hheard⟩

variable (ctx m) in
/-- A copy of the data of a record is put into the trash. -/
def Discards (t t' : Record × σ) : Prop :=
  ∃ time s key, ctx.now.run t.2 = (.ok time, s) ∧
    (ctx.request m.trashCollection (.insertOne
      [(.text "document", .dict t.1.data), (.text "createdAt", .moment time)])).run s =
        (.ok key, t'.2) ∧
    t'.1 = t.1

variable (ctx m) in
/-- The document of a record is taken out of its collection, or what is stored is replaced if the
model only marks what is deleted. The document is the one with the identifier of the record. -/
inductive Removes : Record × σ → Record × σ → Prop
  | marked {r : Record} {s s' : σ} {id : Value} {n : Int} : m.deletion = .soft →
      (Value.dict r.data).field "_id" = .ok id →
      (ctx.request m.collection (.replaceOne [(.text "_id", id)] r.data false)).run s =
        (.ok n, s') →
      Removes (r, s) (r, s')
  | deleted {r : Record} {s s' : σ} {id : Value} {n : Int} : m.deletion ≠ .soft →
      (Value.dict r.data).field "_id" = .ok id →
      (ctx.request m.collection (.deleteOne [(.text "_id", id)])).run s = (.ok n, s') →
      Removes (r, s) (r, s')

theorem discards_of_act (h : (Removal.act ctx below m .discard).run t = (.ok (), t')) :
    Discards ctx m t t' := by
  obtain ⟨r, s⟩ := t
  simp only [Removal.act, discard] at h
  rw [run_bind_record] at h
  obtain ⟨time, ⟨r₁, s₁⟩, hnow, h⟩ := Action.run_bind_eq_ok.1 h
  obtain ⟨hclock, rfl⟩ := Action.run_second_eq_iff.1 hnow
  obtain ⟨key, ⟨r₂, s₂⟩, hrequest, hdone⟩ := Action.run_bind_eq_ok.1 h
  obtain ⟨hinsert, rfl⟩ := Action.run_second_eq_iff.1 hrequest
  cases hdone
  exact ⟨time, s₁, key, hclock, hinsert, rfl⟩

theorem removes_of_act (h : (Removal.act ctx below m .remove).run t = (.ok (), t')) :
    Removes ctx m t t' := by
  obtain ⟨r, s⟩ := t
  simp only [Removal.act, remove] at h
  split at h
  · next hsoft =>
    unfold replace at h
    rw [run_bind_record] at h
    obtain ⟨id, s', n, rfl, hid, hreplace⟩ := exists_of_keyed h
    exact .marked hsoft hid hreplace
  · next hhard =>
    rw [run_bind_record] at h
    obtain ⟨id, s', n, rfl, hid, hdelete⟩ := exists_of_keyed h
    exact .deleted hhard hid hdelete

theorem eq_of_mem_marks {step : Removal σ} (h : step ∈ marks m) : step = .mark := by
  unfold marks at h
  split at h
  · exact List.mem_singleton.1 h
  · cases h

theorem eq_of_mem_discards {step : Removal σ} (h : step ∈ discards m) : step = .discard := by
  unfold discards at h
  split at h
  · exact List.mem_singleton.1 h
  · cases h

/-- Whether a step comes before the document is taken out of its collection. -/
def Removal.Leads : Removal σ → Prop
  | hear _ event _ => event = .deleting
  | remove | clean _ => False
  | _ => True

theorem leads_of_full_leading (h : Phase.Full (leading ctx m) whole) :
    ∀ step ∈ whole, step.Leads := by
  obtain ⟨told, rfl, htold⟩ := exists_of_full_leading h
  intro step hmem
  rcases List.mem_cons.1 hmem with rfl | hmem
  · trivial
  · rcases List.mem_append.1 hmem with hmem | hmem
    · rcases List.mem_append.1 hmem with hmem | hmem
      · rw [eq_of_mem_marks hmem]
        trivial
      · rw [eq_of_mem_discards hmem]
        trivial
    · have hhears := htold step hmem
      cases step with
      | hear id event l => exact hhears.2
      | _ => exact hhears.elim

/-- A deletion that comes to a later step has gone through the first ones. -/
theorem exists_of_not_leads {step : Removal σ}
    (h : Phase.Follows (Removal.act ctx below m) (destroying ctx m) t steps ending t')
    (hmem : step ∈ steps) (hlate : ¬ step.Leads) :
    ∃ early last t₁, steps = early ++ last ∧ step ∈ last ∧
      Phase.Follows (Removal.act ctx below m) (leading ctx m) t early .finished t₁ ∧
      Phase.Follows (Removal.act ctx below m)
        (.one .remove :: (heeding ctx m .deleted ++ cleaning m)) t₁ last ending t' := by
  have hearly : ∀ {course : List (Removal σ)} {ending : Ending} {t₁ : Record × σ},
      Phase.Follows (Removal.act ctx below m) (leading ctx m) t course ending t₁ →
      step ∉ course := by
    intro course ending t₁ hcourse hin
    obtain ⟨whole, hfull, hinitial, -⟩ := hcourse.exists_full
    exact hlate (leads_of_full_leading hfull step (hinitial.subset hin))
  obtain ⟨hfirst, -⟩ | ⟨early, last, t₁, rfl, hfirst, hlast⟩ := h.append
  · exact absurd hmem (hearly hfirst)
  · have hin := (List.mem_append.1 hmem).resolve_left (hearly hfirst)
    exact ⟨early, last, t₁, rfl, hin, hfirst, hlast⟩

/-- Before the document of a record goes, the trash has a copy of the record if the model has
one. -/
theorem exists_discards (htrash : m.deletion = .trash)
    (h : Phase.Follows (Removal.act ctx below m) (leading ctx m) t steps .finished t') :
    ∃ first told t₁ t₂, steps = first ++ .discard :: told ∧
      Phase.Follows (Removal.act ctx below m) (.one .require :: (marks m).map .one) t first
        .finished t₁ ∧
      Discards ctx m t₁ t₂ ∧
      Phase.Follows (Removal.act ctx below m) (heeding ctx m .deleting) t₂ told .finished t' := by
  have hphases : leading ctx m = (.one .require :: (marks m).map .one) ++
      .one .discard :: heeding ctx m .deleting := by
    simp [leading, condemning, discards, htrash]
  rw [hphases] at h
  obtain ⟨-, hending⟩ | ⟨first, last, t₁, rfl, hfirst, hlast⟩ := h.append
  · exact absurd rfl hending
  · cases hlast with
    | one hdiscard htold =>
      exact ⟨first, _, t₁, _, rfl, hfirst, discards_of_act hdiscard, htold⟩

/-- A deletion that comes to a rule has taken the document out. -/
theorem exists_removes {rule : Sync.Rule σ}
    (h : Phase.Follows (Removal.act ctx below m) (destroying ctx m) t steps ending t')
    (hmem : .clean rule ∈ steps) :
    ∃ early late t₁ t₂, steps = early ++ .remove :: late ∧
      Phase.Follows (Removal.act ctx below m) (leading ctx m) t early .finished t₁ ∧
      Removes ctx m t₁ t₂ ∧
      Phase.Follows (Removal.act ctx below m) (heeding ctx m .deleted ++ cleaning m) t₂ late
        ending t' := by
  obtain ⟨early, last, t₁, rfl, hin, hearly, hlast⟩ := exists_of_not_leads h hmem id
  cases hlast with
  | one hremove hlate =>
    exact ⟨early, _, t₁, _, rfl, hearly, removes_of_act hremove, hlate⟩
  | fail hremove =>
    rw [List.mem_singleton] at hin
    cases hin

theorem only_notMem_destroying (test : Record × σ → Bool) : .only test ∉ destroying ctx m := by
  have hheeding : ∀ event, .only test ∉ heeding ctx m event := by
    intro event
    simp [heeding]
  simp [destroying, leading, condemning, cleaning, hheeding]

variable (m) in
/-- The steps of a deletion that ends so are the first ones of a whole course, up to one that fails,
and all of it if none does. In a whole course the copy for the trash comes before the listeners
that hear of the deletion, the document is taken out once, after them, and the rules come last. -/
def Removal.Orderly (steps : List (Removal σ)) (ending : Ending) : Prop :=
  ∃ told heard whole, whole = .require :: (marks m ++ discards m ++ told) ++
      .remove :: heard ++ m.rules.map .clean ∧
    (∀ step ∈ told, step.Hears m .deleting) ∧ (∀ step ∈ heard, step.Hears m .deleted) ∧
    steps <+: whole ∧ (ending = .finished ∧ steps = whole ∨ ∃ e, ending = .failed e)

theorem Removal.orderly_of_follows
    (h : Phase.Follows (Removal.act ctx below m) (destroying ctx m) t steps ending t') :
    Removal.Orderly m steps ending := by
  obtain ⟨whole, hfull, hinitial, hall⟩ := h.exists_full
  obtain ⟨told, heard, hwhole, htold, hheard⟩ := exists_of_full_destroying hfull
  refine ⟨told, heard, whole, hwhole, htold, hheard, hinitial, ?_⟩
  cases ending with
  | finished => exact .inl ⟨rfl, hall rfl⟩
  | stopped =>
    obtain ⟨test, hmem⟩ := h.exists_only
    exact absurd hmem (only_notMem_destroying test)
  | failed e => exact .inr ⟨e, rfl⟩

end DocumentMapper.Lifecycle
