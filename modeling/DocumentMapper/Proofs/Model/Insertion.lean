import DocumentMapper.Proofs.History
import DocumentMapper.Proofs.Model.Identity

/-!
# A record is inserted once

Callers edit a record and save it, again and again, and go on after every failure. As long as
nobody but the database gives it an identifier or takes it away, there are two times in the life of
a record: it is new until an insertion succeeds, and from then on it is known by the identifier that
the database answered, and every write replaces the document of that identifier. Which of the two
writes a save makes is chosen anew each time from data that may have changed, so the times are
traced through all deeds, those inside of a save as well.
-/

namespace DocumentMapper.Lifecycle

variable {σ : Type} (ctx : Context σ) (below : Cascade σ)

/-- The history of a save of a record. -/
def saveHistory (o : SaveOptions) (t : Record × σ) : History (Record × σ) (Effect σ) :=
  Phase.history (Effect.act ctx below (ctx.model t.1.model)) (saving ctx (ctx.model t.1.model) o t.1)
    t

/-- What a caller does with a record. -/
inductive Move where
  | edit (e : Edit)
  | save (o : SaveOptions)

namespace Move

def act : Move → Step σ Unit
  | edit e => e.act
  | save o => Lifecycle.save ctx below o

/-- The deeds of which a move consists. -/
def deeds : Move → Record × σ → List (Taken (Record × σ) (Deed σ))
  | edit e, t => [⟨.edit e, t, (e.act.run t).1, (e.act.run t).2⟩]
  | save o, t => (saveHistory ctx below o t).taken.map (.map (.effect (ctx.model t.1.model)))

end Move

/-- The deeds of moves. Each move comes with the state of everything else that it finds, and a
failure does not keep the next one from being made. -/
def deeds : List (Move × σ) → Record → List (Taken (Record × σ) (Deed σ))
  | [], _ => []
  | (move, s) :: rest, r =>
    move.deeds ctx below (r, s) ++ deeds rest ((move.act ctx below).run (r, s)).2.1

/-- The record after moves. -/
def played : List (Move × σ) → Record → Record
  | [], r => r
  | (move, s) :: rest, r => played rest ((move.act ctx below).run (r, s)).2.1

/-! ## Two times -/

def Deed.IsInsert (deed : Deed σ) : Prop :=
  ∃ m, deed = .effect m .insert

/-- Whether a deed writes the document of the record. -/
def Deed.Writes (deed : Deed σ) : Prop :=
  ∃ m, deed = .effect m .insert ∨ deed = .effect m .replace

/-- The deed is an insertion that succeeds, and the database answers an identifier. -/
def Inserts (a : Taken (Record × σ) (Deed σ)) (key : Value) : Prop :=
  ∃ m, a.step = .effect m .insert ∧
    (ctx.request m.collection (.insertOne a.before.1.data)).run a.before.2 = (.ok key, a.after.2)

/-- The deed asks the database to replace the document with an identifier by the data of the
record. -/
def Replaces (key : Value) (a : Taken (Record × σ) (Deed σ)) : Prop :=
  ∃ m answer, a.step = .effect m .replace ∧
    (ctx.request m.collection (.replaceOne [(.text "_id", key)] a.before.1.data false)).run
      a.before.2 = (answer, a.after.2)

def Unsaved (r : Record) : Prop :=
  r.isNew = true ∧ r.restored = false

def Saved (key : Value) (r : Record) : Prop :=
  r.isNew = false ∧ r.key = key

/-- A deed before the insertion. -/
def Awaits (a : Taken (Record × σ) (Deed σ)) : Prop :=
  Unsaved a.before.1 ∧ Unsaved a.after.1 ∧ ∀ key, ¬ Inserts ctx a key

/-- A deed after the insertion. -/
def Remains (key : Value) (a : Taken (Record × σ) (Deed σ)) : Prop :=
  Saved key a.before.1 ∧ Saved key a.after.1 ∧ (a.step.Writes → Replaces ctx key a)

/-- Deeds with one insertion that succeeds among them or none, and the record after them. -/
inductive Story : List (Taken (Record × σ) (Deed σ)) → Record → Prop
  | new {taken : List (Taken (Record × σ) (Deed σ))} {r : Record} :
      (∀ a ∈ taken, Awaits ctx a) → Unsaved r → Story taken r
  | inserted {early late : List (Taken (Record × σ) (Deed σ))}
      {birth : Taken (Record × σ) (Deed σ)} {key : Value} {r : Record} :
      (∀ a ∈ early, Awaits ctx a) → Unsaved birth.before.1 → Inserts ctx birth key →
      Saved key birth.after.1 → (∀ a ∈ late, Remains ctx key a) → Saved key r →
      Story (early ++ birth :: late) r

variable {ctx below} {m : Model σ} {o : SaveOptions} {r r' : Record} {key : Value}
  {t : Record × σ} {a : Taken (Record × σ) (Deed σ)}
  {taken later : List (Taken (Record × σ) (Deed σ))}

theorem Unsaved.keeps (h : Unsaved r) (hkeeps : r.Keeps r') : Unsaved r' := by
  obtain ⟨hnew, hrestored⟩ := h
  obtain ⟨hkey, hmarked⟩ := hkeeps
  have hrestored' : r'.restored = false := by
    rw [Bool.eq_false_iff]
    intro h
    rw [hmarked h] at hrestored
    cases hrestored
  refine ⟨?_, hrestored'⟩
  rw [Record.isNew, hrestored, Bool.or_false] at hnew
  rw [Record.isNew, hrestored', Bool.or_false]
  rcases hkey with hsame | ⟨-, hfalsy⟩
  · rw [hsame, hnew]
  · rw [hfalsy, Bool.not_false]

theorem isNew_eq_false : r.isNew = false ↔ r.key.isTruthy = true ∧ r.restored = false := by
  rw [Record.isNew, Bool.or_eq_false_iff, Bool.not_eq_false']

theorem Saved.keeps (h : Saved key r) (hkeeps : r.Keeps r') : Saved key r' := by
  obtain ⟨htruthy, hrestored⟩ := isNew_eq_false.1 h.1
  obtain ⟨hsame | ⟨hfalsy, -⟩, hmarked⟩ := hkeeps
  · have hrestored' : r'.restored = false := by
      rw [Bool.eq_false_iff]
      intro h
      rw [hmarked h] at hrestored
      cases hrestored
    exact ⟨isNew_eq_false.2 ⟨hsame ▸ htruthy, hrestored'⟩, hsame.trans h.2⟩
  · rw [htruthy] at hfalsy
    cases hfalsy

/-! ## One deed -/

variable (ctx) in
/-- Insertions that succeed are answered with an identifier. -/
def Identifies : Prop :=
  ∀ collection d s key s',
    (ctx.request collection (.insertOne d)).run s = (.ok key, s') → key.isTruthy = true

theorem awaits_or_inserts (hkeys : Identifies ctx)
    (hrun : (a.step.act ctx below).run a.before = (a.outcome, a.after))
    (hspares : a.step.Names a.before.1 → a.before.1.Keeps a.after.1)
    (hnew : Unsaved a.before.1) :
    Awaits ctx a ∨ ∃ key, Inserts ctx a key ∧ Saved key a.after.1 := by
  by_cases hinsert : a.step.IsInsert
  · obtain ⟨m, hstep⟩ := hinsert
    have hinserted : (Effect.insert.act ctx below m).run a.before = (a.outcome, a.after) := by
      rwa [hstep] at hrun
    rcases insert_cases hinserted with ⟨e, hrequest, hsame⟩ | ⟨key, hrequest, hafter⟩
    · left
      refine ⟨hnew, hsame ▸ hnew, ?_⟩
      rintro key ⟨m', hstep', hrequest'⟩
      rw [hstep] at hstep'
      cases hstep'
      rw [hrequest] at hrequest'
      cases hrequest'
    · right
      refine ⟨key, ⟨m, hstep, hrequest⟩, ?_⟩
      have hkey : a.after.1.key = key := by
        rw [hafter]
        exact Document.fieldOrNull_putField_self _ _ _
      have hrestored : a.after.1.restored = false := by rw [hafter]
      have htruthy := hkeys _ _ _ _ _ hrequest
      exact ⟨isNew_eq_false.2 ⟨hkey ▸ htruthy, hrestored⟩, hkey⟩
  · left
    refine ⟨hnew, ?_, ?_⟩
    · by_cases hnames : a.step.Names a.before.1
      · exact hnew.keeps (hspares hnames)
      · exact hnew.keeps (a.step.keeps_act hnames (fun m hstep => hinsert ⟨m, hstep⟩) hrun)
    · rintro key ⟨m, hstep, -⟩
      exact hinsert ⟨m, hstep⟩

theorem remains (hrun : (a.step.act ctx below).run a.before = (a.outcome, a.after))
    (hspares : a.step.Names a.before.1 → a.before.1.Keeps a.after.1)
    (hinsert : ¬ a.step.IsInsert) (hsaved : Saved key a.before.1) : Remains ctx key a := by
  refine ⟨hsaved, ?_, ?_⟩
  · by_cases hnames : a.step.Names a.before.1
    · exact hsaved.keeps (hspares hnames)
    · exact hsaved.keeps (a.step.keeps_act hnames (fun m hstep => hinsert ⟨m, hstep⟩) hrun)
  · rintro ⟨m, hstep | hstep⟩
    · exact absurd ⟨m, hstep⟩ hinsert
    · have hreplaced : (Effect.replace.act ctx below m).run a.before = (a.outcome, a.after) := by
        rwa [hstep] at hrun
      have htruthy := (isNew_eq_false.1 hsaved.1).1
      rw [hsaved.2] at htruthy
      obtain ⟨answer, hrequest⟩ := exists_replace hsaved.2 htruthy hreplaced
      exact ⟨m, answer, hstep, hrequest⟩

/-! ## Chains of deeds -/

/-- Deeds that name the identifier leave it alone all the same. -/
def Spares (taken : List (Taken (Record × σ) (Deed σ))) : Prop :=
  ∀ a ∈ taken, a.step.Names a.before.1 → a.before.1.Keeps a.after.1

theorem remains_of_linked
    (h : Linked (Deed.act ctx below) Prod.fst r taken r') (hspares : Spares taken)
    (hinsert : ∀ a ∈ taken, ¬ a.step.IsInsert) (hsaved : Saved key r) :
    (∀ a ∈ taken, Remains ctx key a) ∧ Saved key r' := by
  induction h with
  | nil => exact ⟨List.forall_mem_nil _, hsaved⟩
  | cons hrun _ ih =>
    rw [Spares, List.forall_mem_cons] at hspares
    rw [List.forall_mem_cons] at hinsert ⊢
    have hfirst := remains hrun hspares.1 hinsert.1 hsaved
    obtain ⟨hrest, hfinal⟩ := ih hspares.2 hinsert.2 hfirst.2.1
    exact ⟨⟨hfirst, hrest⟩, hfinal⟩

/-- A chain in which at most one deed is an insertion. -/
theorem story_of_linked (hkeys : Identifies ctx)
    (h : Linked (Deed.act ctx below) Prod.fst r taken r') (hspares : Spares taken)
    (hone : taken.Pairwise fun a b => ¬ (a.step.IsInsert ∧ b.step.IsInsert))
    (hnew : Unsaved r) : Story ctx taken r' := by
  induction h with
  | nil => exact .new (List.forall_mem_nil _) hnew
  | @cons a rest r' hrun hlinked ih =>
    rw [Spares, List.forall_mem_cons] at hspares
    rw [List.pairwise_cons] at hone
    rcases awaits_or_inserts hkeys hrun hspares.1 hnew with hawaits | ⟨key, hinserts, hsaved⟩
    · have hrest := ih hspares.2 hone.2 hawaits.2.1
      cases hrest with
      | new hall hfinal => exact .new (List.forall_mem_cons.2 ⟨hawaits, hall⟩) hfinal
      | @inserted early late birth key r' hearly hbefore hinserts hafter hlate hfinal =>
        rw [← List.cons_append]
        have hearly := List.forall_mem_cons.2 ⟨hawaits, hearly⟩
        exact .inserted hearly hbefore hinserts hafter hlate hfinal
    · have hinsert : a.step.IsInsert := by
        obtain ⟨m, hstep, -⟩ := hinserts
        exact ⟨m, hstep⟩
      have hothers : ∀ b ∈ rest, ¬ b.step.IsInsert := fun b hb h => hone.1 b hb ⟨hinsert, h⟩
      obtain ⟨hlate, hfinal⟩ := remains_of_linked hlinked hspares.2 hothers hsaved
      rw [← List.nil_append (a :: rest)]
      exact .inserted (List.forall_mem_nil _) hnew hinserts hsaved hlate hfinal

/-- A story goes on. -/
theorem Story.append (h : Story ctx taken r) (hnew : Unsaved r → Story ctx later r')
    (hsaved : ∀ key, Saved key r → (∀ a ∈ later, Remains ctx key a) ∧ Saved key r') :
    Story ctx (taken ++ later) r' := by
  cases h with
  | new hall hfinal =>
    cases hnew hfinal with
    | new hlater hfinal => exact .new (List.forall_mem_append.2 ⟨hall, hlater⟩) hfinal
    | inserted hearly hbefore hinserts hafter hlate hfinal =>
      rw [← List.append_assoc]
      exact .inserted (List.forall_mem_append.2 ⟨hall, hearly⟩) hbefore hinserts hafter hlate hfinal
  | inserted hearly hbefore hinserts hafter hlate hfinal =>
    obtain ⟨hlater, hfinal⟩ := hsaved _ hfinal
    rw [List.append_assoc, List.cons_append]
    exact .inserted hearly hbefore hinserts hafter (List.forall_mem_append.2 ⟨hlate, hlater⟩) hfinal

/-! ## One move -/

theorem each_run_fst {find : Step σ (List (Effect σ))} (h : .each find ∈ saving ctx m o r)
    (t : Record × σ) : (find.run t).2.1 = t.1 := by
  obtain rfl | ⟨id, event, old, rfl⟩ := each_mem_saving h
  · rfl
  · have hpreserves : (listening ctx id event old).Preserves fun u => u.1 = t.1 :=
      (preserves_outside_of (· = t.1) _).bind fun _ => .pure _
    exact hpreserves t rfl

variable (below) in
/-- A save ends like its history. -/
theorem ends_saveHistory (hlog : ∀ entry s, ∃ s', (ctx.log entry).run s = (.ok (), s'))
    (o : SaveOptions) (t : Record × σ) :
    Ends ctx ((saveHistory ctx below o t).ending.outcome, (saveHistory ctx below o t).final)
      ((save ctx below o).run t) := by
  obtain ⟨r, s⟩ := t
  have hends := ends_save below (r := r) (o := o) hlog rfl s
  have hfollows := Phase.follows_history (Effect.act ctx below (ctx.model r.model))
    (saving ctx (ctx.model r.model) o r) (r, s)
  rw [hfollows.run_perform] at hends
  exact hends

theorem fst_of_ends {outcome : Except Error Bool} {result : Except Error Unit × Record × σ}
    (h : Ends ctx (outcome, t) result) : result.2.1 = t.1 := by
  cases outcome with
  | ok done =>
    cases h
    rfl
  | error e =>
    obtain ⟨s', hresult, -⟩ := h
    rw [hresult]

variable (below) in
/-- The deeds of a move lead from the record before it to the record after it. -/
theorem linked_deeds (hlog : ∀ entry s, ∃ s', (ctx.log entry).run s = (.ok (), s'))
    (move : Move) (t : Record × σ) :
    Linked (Deed.act ctx below) Prod.fst t.1 (move.deeds ctx below t)
      ((move.act ctx below).run t).2.1 := by
  cases move with
  | edit e =>
    exact Linked.cons (a := ⟨Deed.edit e, t, (e.act.run t).1, (e.act.run t).2⟩) rfl .nil
  | save o =>
    have hhistory : Linked (Effect.act ctx below (ctx.model t.1.model)) Prod.fst t.1
        (saveHistory ctx below o t).taken (saveHistory ctx below o t).final.1 :=
      .history (fun find hmem => each_run_fst hmem) t
    rw [Move.act, fst_of_ends (ends_saveHistory below hlog o t)]
    exact hhistory.map (Deed.effect (ctx.model t.1.model)) fun step => rfl

theorem pairwise_middle {α : Type} {P : α → Prop} {x : α} {before after : List α}
    (hbefore : ∀ a ∈ before, ¬ P a) (hafter : ∀ a ∈ after, ¬ P a) :
    (before ++ x :: after).Pairwise fun a b => ¬ (P a ∧ P b) := by
  rw [List.pairwise_append, List.pairwise_cons]
  refine ⟨?_, ⟨fun b hb h => hafter b hb h.2, ?_⟩, fun a ha b _ h => hbefore a ha h.1⟩
  · exact List.pairwise_of_forall_mem_list fun a ha b _ h => hbefore a ha h.1
  · exact List.pairwise_of_forall_mem_list fun a ha b _ h => hafter a ha h.1

variable (ctx below) in
/-- The steps of a save are among those that come before the one that writes, that one, and those
that come after it. -/
theorem exists_steps (o : SaveOptions) (t : Record × σ) :
    ∃ before after, (saveHistory ctx below o t).taken.map Taken.step <+:
        before ++ writing (merged o t.1) :: after ∧
      (∀ step ∈ before, step.stage ≠ 5) ∧ ∀ step ∈ after, step.stage ≠ 5 := by
  obtain ⟨early, late, whole, rfl, hinitial, -, -, hearly, hlate, -⟩ :=
    orderly_of_follows (Phase.follows_history (Effect.act ctx below (ctx.model t.1.model))
      (saving ctx (ctx.model t.1.model) o t.1) t)
  rw [List.append_assoc, List.cons_append (a := writing (merged o t.1))] at hinitial
  refine ⟨.require :: early, _, hinitial, ?_, ?_⟩
  · rw [List.forall_mem_cons]
    refine ⟨by simp [Effect.stage], fun step hmem => ?_⟩
    have := hearly step hmem
    omega
  · rw [List.forall_mem_append, List.forall_mem_cons]
    refine ⟨fun step hmem => ?_, by simp [Effect.stage], ?_⟩
    · have := hlate step hmem
      omega
    · intro step hmem
      obtain ⟨rule, -, rfl⟩ := List.mem_map.1 hmem
      simp [Effect.stage]

theorem stage_of_isInsert {e : Effect σ} (h : (Deed.effect m e).IsInsert) : e.stage = 5 := by
  obtain ⟨m', hstep⟩ := h
  cases hstep
  rfl

variable (ctx below) in
/-- At most one of the deeds of a move is an insertion. -/
theorem pairwise_deeds (move : Move) (t : Record × σ) :
    (move.deeds ctx below t).Pairwise fun a b => ¬ (a.step.IsInsert ∧ b.step.IsInsert) := by
  cases move with
  | edit e => exact List.pairwise_singleton _ _
  | save o =>
    obtain ⟨before, after, hinitial, hbefore, hafter⟩ := exists_steps ctx below o t
    have hone := (pairwise_middle (x := writing (merged o t.1)) hbefore hafter).sublist
      hinitial.sublist
    rw [List.pairwise_map] at hone
    rw [Move.deeds, List.pairwise_map]
    refine hone.imp fun hab h => hab ?_
    exact ⟨stage_of_isInsert h.1, stage_of_isInsert h.2⟩

/-- The record that a save decides on has the identity of the record before, if the save comes to
a step that writes. -/
theorem keeps_merged {rest : List (Phase (Record × σ) (Effect σ))}
    {b : Taken (Record × σ) (Effect σ)}
    (hspares : ∀ a ∈ (Phase.history (Effect.act ctx below m) (.one .require :: (merging o ++ rest))
      t).taken, a.step.Names m a.before.1 → a.before.1.Keeps a.after.1)
    (hb : b ∈ (Phase.history (Effect.act ctx below m) (.one .require :: (merging o ++ rest))
      t).taken) (hstage : b.step.stage = 5) : t.1.Keeps (merged o t.1) := by
  rw [Phase.history] at hspares hb
  rcases hrequire : (Effect.require.act ctx below m).run t with ⟨e | ⟨⟩, t₁⟩
  · rw [History.take_error hrequire, List.mem_singleton] at hb
    subst hb
    cases hstage
  rw [History.take_ok hrequire, List.forall_mem_cons] at hspares
  have hsame : t₁.1 = t.1 := by
    have hpreserves : (Effect.require.act ctx below m).Preserves fun u => u.1 = t.1 :=
      preserves_outside_of (· = t.1) _
    exact hpreserves.of_run rfl hrequire
  unfold merged
  cases htruthy : o.changes.isTruthy with
  | false => exact t.1.keeps_refl
  | true =>
    cases hentries : o.changes.entriesFor "items" with
    | error e => exact t.1.keeps_refl
    | ok d =>
      have hmerge : ((Effect.merge o.changes).act ctx below m).run t₁ =
          (.ok (), t.1.merge d, t₁.2) := by
        simp only [Effect.act, hentries, ← hsame]
        rfl
      have hmerging : merging o ++ rest = .one (.merge o.changes) :: rest := by
        simp [merging, htruthy]
      rw [hmerging, Phase.history, History.take_ok hmerge, List.forall_mem_cons] at hspares
      have hkeeps : t₁.1.Keeps (t.1.merge d) := by
        by_cases hnames : (Effect.merge o.changes).Names m t₁.1
        · exact hspares.2.1 hnames
        · have hother : Effect.merge o.changes ≠ (.insert : Effect σ) := by
            intro h
            cases h
          exact Effect.keeps_act hnames hother hmerge
      exact hsame ▸ hkeeps

/-- A record that was inserted is not inserted again. -/
theorem not_isInsert_of_saved (move : Move) (hspares : Spares (move.deeds ctx below t))
    (hsaved : Saved key t.1) : ∀ a ∈ move.deeds ctx below t, ¬ a.step.IsInsert := by
  intro a ha hinsert
  cases move with
  | edit e =>
    rw [Move.deeds, List.mem_singleton] at ha
    subst ha
    obtain ⟨m, hstep⟩ := hinsert
    cases hstep
  | save o =>
    obtain ⟨b, hb, rfl⟩ := List.mem_map.1 ha
    have hstage := stage_of_isInsert hinsert
    have hkeeps : t.1.Keeps (merged o t.1) := by
      have hphases : saving ctx (ctx.model t.1.model) o t.1 = .one .require :: (merging o ++
          (storing ctx (ctx.model t.1.model) o (merged o t.1) ++
            .one .keep :: syncing (ctx.model t.1.model) (merged o t.1))) := by
        simp [saving]
      have hspares : ∀ a ∈ (saveHistory ctx below o t).taken,
          a.step.Names (ctx.model t.1.model) a.before.1 → a.before.1.Keeps a.after.1 :=
        fun a ha => hspares (a.map _) (List.mem_map_of_mem ha)
      rw [saveHistory, hphases] at hb hspares
      exact keeps_merged hspares hb hstage
    have hreplace : writing (merged o t.1) = (.replace : Effect σ) := by
      rw [writing, (hsaved.keeps hkeeps).1]
      rfl
    obtain ⟨before, after, hinitial, hbefore, hafter⟩ := exists_steps ctx below o t
    have hmem := hinitial.subset (List.mem_map_of_mem hb)
    rw [hreplace, List.mem_append, List.mem_cons] at hmem
    obtain ⟨m, hstep⟩ := hinsert
    rcases hmem with hmem | hmem | hmem
    · exact hbefore _ hmem hstage
    · have hinserted := (Deed.effect.inj hstep).2
      rw [hmem] at hinserted
      cases hinserted
    · exact hafter _ hmem hstage

/-! ## All moves -/

theorem remains_deeds (hlog : ∀ entry s, ∃ s', (ctx.log entry).run s = (.ok (), s'))
    {moves : List (Move × σ)} (hspares : Spares (deeds ctx below moves r)) (hsaved : Saved key r) :
    (∀ a ∈ deeds ctx below moves r, Remains ctx key a) ∧ Saved key (played ctx below moves r) := by
  induction moves generalizing r with
  | nil => exact ⟨List.forall_mem_nil _, hsaved⟩
  | cons first rest ih =>
    obtain ⟨move, s⟩ := first
    rw [Spares, deeds, List.forall_mem_append] at hspares
    have hinsert := not_isInsert_of_saved move hspares.1 hsaved
    obtain ⟨hfirst, hafter⟩ :=
      remains_of_linked (linked_deeds below hlog move (r, s)) hspares.1 hinsert hsaved
    obtain ⟨hrest, hfinal⟩ := ih hspares.2 hafter
    rw [deeds, List.forall_mem_append]
    exact ⟨⟨hfirst, hrest⟩, hfinal⟩

theorem story_of_unsaved (hlog : ∀ entry s, ∃ s', (ctx.log entry).run s = (.ok (), s'))
    (hkeys : Identifies ctx) {moves : List (Move × σ)}
    (hspares : Spares (deeds ctx below moves r)) (hnew : Unsaved r) :
    Story ctx (deeds ctx below moves r) (played ctx below moves r) := by
  induction moves generalizing r with
  | nil => exact .new (List.forall_mem_nil _) hnew
  | cons first rest ih =>
    obtain ⟨move, s⟩ := first
    rw [Spares, deeds, List.forall_mem_append] at hspares
    have hfirst := story_of_linked hkeys (linked_deeds below hlog move (r, s)) hspares.1
      (pairwise_deeds ctx below move (r, s)) hnew
    rw [deeds, played]
    exact hfirst.append (ih hspares.2) fun key => remains_deeds hlog hspares.2

/-- A database that takes documents while it is up. -/
def flaky : Context Bool :=
  { Context.sample [] fun _ => return 1 with
    execute
      | ⟨_, .insertOne _⟩ => do
        if ← get then return Value.int 7 else throw (.raised "down")
      | ⟨_, .replaceOne ..⟩ => return (1 : Int)
      | _ => throw (.raised "refused") }

def newShop : Record :=
  .ofData "Shop" [(.text "id", .int 1)]

/-- The shop is saved when the database is down and once more when it is up, and then renamed. -/
def persistent : List (Move × Bool) :=
  [(.save .standard, false), (.save .standard, true), (.edit (.set "name" (.text "Anne")), true),
    (.save .standard, true)]

theorem spares_persistent : Spares (deeds flaky (cascade flaky 0) persistent newShop) := by
  have hsame : ∀ {r r' : Record}, r'.key = r.key → r'.restored = r.restored → r.Keeps r' :=
    fun hkey hrestored => ⟨.inl hkey, fun h => hrestored ▸ h⟩
  iterate 7 refine List.forall_mem_cons.2 ⟨fun _ => hsame rfl rfl, ?_⟩
  -- The insertion that succeeds is the eighth deed.
  refine List.forall_mem_cons.2 ⟨fun hnames => hnames.elim, ?_⟩
  iterate 6 refine List.forall_mem_cons.2 ⟨fun _ => hsame rfl rfl, ?_⟩
  exact List.forall_mem_nil _

theorem identifies_flaky : Identifies flaky := by
  intro collection d s key s' h
  cases s with
  | false => cases h
  | true =>
    cases h
    rfl

example : (played flaky (cascade flaky 0) persistent newShop).key = .int 7 := rfl

end DocumentMapper.Lifecycle
