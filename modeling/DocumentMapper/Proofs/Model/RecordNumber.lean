import DocumentMapper.Proofs.Model.Insertion

/-!
# A record keeps its number

A record that is about to be inserted takes a number from the counter of its collection unless it
has one. It is asked again at every attempt, and what is asked is whether the number counts as true.
So a number that does is kept through all attempts, whether it was there at first or came from the
counter, and one that does not, like zero, is replaced as soon as an attempt gets that far.

Others may give the record another number: an edit or a default of that name, a cast, a time stamp,
a listener. It is assumed that they leave it alone.
-/

namespace DocumentMapper.Lifecycle

variable {σ : Type}

/-- Whether a deed takes a number from the counter of the collection. -/
def Deed.IsNumber (deed : Deed σ) : Prop :=
  ∃ m, deed = .effect m .number

/-- The deed has given a record that is about to be inserted the defaults of its model. -/
def Fills (a : Taken (Record × σ) (Deed σ)) : Prop :=
  (∃ m, a.step = .effect m .fill) ∧ a.outcome = .ok ()

/-- The deed gives the record a number that the counter has answered. -/
def Draws (ctx : Context σ) (a : Taken (Record × σ) (Deed σ)) (n : Value) : Prop :=
  ∃ m s', a.step = .effect m .number ∧ (Finder.nextId ctx m).run a.before.2 = (.ok n, s')

/-- The counter is not asked, and every document that is written has the number. -/
def Kept (n : Value) (taken : List (Taken (Record × σ) (Deed σ))) : Prop :=
  ∀ a ∈ taken, ¬ a.step.IsNumber ∧ (a.step.Writes → a.before.1.id = n)

/-- Deeds that may write to the number leave it alone all the same. -/
def SparesNumber (taken : List (Taken (Record × σ) (Deed σ))) : Prop :=
  ∀ a ∈ taken, ¬ a.step.IsNumber → a.step.Touches "id" a.before.1 →
    a.after.1.id = a.before.1.id

/-- Deeds in which the counter is asked exactly where defaults have left a record without a number
that counts as true. -/
inductive Numbered : List (Taken (Record × σ) (Deed σ)) → Prop
  | nil : Numbered []
  | other {a : Taken (Record × σ) (Deed σ)} {rest : List (Taken (Record × σ) (Deed σ))} :
      ¬ Fills a → ¬ a.step.IsNumber → Numbered rest → Numbered (a :: rest)
  | filled {a : Taken (Record × σ) (Deed σ)} {rest : List (Taken (Record × σ) (Deed σ))} :
      Fills a → a.after.1.id.isTruthy = true → Numbered rest → Numbered (a :: rest)
  | asked {a b : Taken (Record × σ) (Deed σ)} {rest : List (Taken (Record × σ) (Deed σ))} :
      Fills a → a.after.1.id.isTruthy = false → b.step.IsNumber → Numbered rest →
      Numbered (a :: b :: rest)

variable {ctx : Context σ} {below : Cascade σ} {m : Model σ} {o : SaveOptions} {r r' : Record}
  {t t' : Record × σ} {a : Taken (Record × σ) (Deed σ)} {n : Value}
  {taken later early late : List (Taken (Record × σ) (Deed σ))}

/-! ## One deed -/

theorem not_isNumber_of_fills (h : Fills a) : ¬ a.step.IsNumber := by
  obtain ⟨⟨m, hfill⟩, -⟩ := h
  rintro ⟨m', hnumber⟩
  rw [hfill] at hnumber
  cases hnumber

theorem id_of_field? (h : r'.data.field? "id" = r.data.field? "id") : r'.id = r.id := by
  rw [Record.id, Record.id, Document.fieldOrNull, Document.fieldOrNull, h]

theorem id_after (hrun : (a.step.act ctx below).run a.before = (a.outcome, a.after))
    (hspares : a.step.Touches "id" a.before.1 → a.after.1.id = a.before.1.id) :
    a.after.1.id = a.before.1.id := by
  by_cases htouches : a.step.Touches "id" a.before.1
  · exact hspares htouches
  · exact id_of_field? (a.step.field?_act rfl htouches hrun)

theorem id_of_draws (hrun : (a.step.act ctx below).run a.before = (a.outcome, a.after))
    (h : Draws ctx a n) : a.after.1.id = n := by
  obtain ⟨m, s', hstep, hnext⟩ := h
  have hnumber : (Effect.number.act ctx below m).run a.before =
      (.ok (), { a.before.1 with data := a.before.1.data.putField "id" n }, s') := by
    simp only [Effect.act]
    exact Action.run_bind_ok (run_outside hnext a.before.1)
  rw [hstep] at hrun
  have hafter := (Prod.mk.inj (hrun.symm.trans hnumber)).2
  rw [hafter]
  exact Document.fieldOrNull_putField_self _ _ _

/-! ## Chains of deeds -/

theorem kept_nil : Kept n ([] : List (Taken (Record × σ) (Deed σ))) :=
  List.forall_mem_nil _

theorem kept_cons_iff : Kept n (a :: later) ↔
    (¬ a.step.IsNumber ∧ (a.step.Writes → a.before.1.id = n)) ∧ Kept n later :=
  List.forall_mem_cons

/-- Whether a number is kept along a chain is told by the number itself and by whether a deed of the
chain asks for it. -/
theorem kept_iff_of_linked (hnumbered : Numbered taken)
    (h : Linked (Deed.act ctx below) Prod.fst r taken r') (hspares : SparesNumber taken) :
    Kept r.id taken ↔ r.id.isTruthy = true ∨ ∀ a ∈ taken, ¬ Fills a := by
  induction hnumbered generalizing r with
  | nil => exact iff_of_true kept_nil (.inr (List.forall_mem_nil _))
  | @other a rest hfills hnumber _ ih =>
    rw [SparesNumber, List.forall_mem_cons] at hspares
    cases h with
    | cons hrun hrest =>
      have hid : a.after.1.id = a.before.1.id := id_after hrun (hspares.1 hnumber)
      have hlater := ih hrest hspares.2
      rw [hid] at hlater
      rw [kept_cons_iff, List.forall_mem_cons, hlater]
      exact ⟨fun h => h.2.imp_right fun hrest => ⟨hfills, hrest⟩,
        fun h => ⟨⟨hnumber, fun _ => rfl⟩, h.imp_right fun hall => hall.2⟩⟩
  | @filled a rest hfills htruthy _ ih =>
    rw [SparesNumber, List.forall_mem_cons] at hspares
    cases h with
    | cons hrun hrest =>
      have hnumber := not_isNumber_of_fills hfills
      have hid : a.after.1.id = a.before.1.id := id_after hrun (hspares.1 hnumber)
      have hlater : Kept a.after.1.id rest := (ih hrest hspares.2).2 (.inl htruthy)
      rw [hid] at hlater htruthy
      exact iff_of_true (kept_cons_iff.2 ⟨⟨hnumber, fun _ => rfl⟩, hlater⟩) (.inl htruthy)
  | @asked a b rest hfills hfalsy hnumber _ ih =>
    rw [SparesNumber, List.forall_mem_cons] at hspares
    cases h with
    | cons hrun hrest =>
      have hid : a.after.1.id = a.before.1.id :=
        id_after hrun (hspares.1 (not_isNumber_of_fills hfills))
      rw [hid] at hfalsy
      apply iff_of_false
      · intro hkept
        have hasked := hkept b (List.mem_cons_of_mem _ List.mem_cons_self)
        exact hasked.1 hnumber
      · rintro (htruthy | hnone)
        · exact Bool.false_ne_true (hfalsy.symm.trans htruthy)
        · exact hnone a List.mem_cons_self hfills

/-! ## Where the counter is asked -/

theorem Numbered.append (h : Numbered taken) (hlater : Numbered later) :
    Numbered (taken ++ later) := by
  induction h with
  | nil => exact hlater
  | other hfills hnumber _ ih => exact .other hfills hnumber ih
  | filled hfills htruthy _ ih => exact .filled hfills htruthy ih
  | asked hfills hfalsy hnumber _ ih => exact .asked hfills hfalsy hnumber ih

/-- What comes after a deed that takes a number is of the same kind. -/
theorem Numbered.of_append (h : Numbered (early ++ a :: late)) (hnumber : a.step.IsNumber) :
    Numbered late := by
  generalize htaken : early ++ a :: late = taken at h
  induction h generalizing early with
  | nil => simp at htaken
  | @other b rest hfills hother hrest ih =>
    cases early with
    | nil =>
      cases htaken
      exact absurd hnumber hother
    | cons c early => exact ih (List.cons.inj htaken).2
  | @filled b rest hfills htruthy hrest ih =>
    cases early with
    | nil =>
      cases htaken
      exact absurd hnumber (not_isNumber_of_fills hfills)
    | cons c early => exact ih (List.cons.inj htaken).2
  | @asked b c rest hfills hfalsy hasked hrest ih =>
    cases early with
    | nil =>
      cases htaken
      exact absurd hnumber (not_isNumber_of_fills hfills)
    | cons d early =>
      cases early with
      | nil =>
        cases htaken
        exact hrest
      | cons e early => exact ih (List.cons.inj (List.cons.inj htaken).2).2

namespace Effect

/-- The steps that neither fill in defaults nor ask for a number. -/
def Plain : Effect σ → Prop
  | fill | number => False
  | _ => True

end Effect

variable {step : Effect σ} {next : Record × σ → History (Record × σ) (Effect σ)}
  {phases rest : List (Phase (Record × σ) (Effect σ))}

/-- The deeds of a history of a save. -/
def deedsOf (m : Model σ) (h : History (Record × σ) (Effect σ)) :
    List (Taken (Record × σ) (Deed σ)) :=
  h.taken.map (.map (.effect m))

theorem not_fills_of_plain (hplain : step.Plain) (hstep : a.step = .effect m step) :
    ¬ Fills a := by
  rintro ⟨⟨m', hfill⟩, -⟩
  rw [hstep] at hfill
  cases hfill
  exact hplain

theorem not_isNumber_of_plain (hplain : step.Plain) (hstep : a.step = .effect m step) :
    ¬ a.step.IsNumber := by
  rintro ⟨m', hnumber⟩
  rw [hstep] at hnumber
  cases hnumber
  exact hplain

theorem numbered_take (hplain : step.Plain) (hnext : ∀ t, Numbered (deedsOf m (next t)))
    (t : Record × σ) :
    Numbered (deedsOf m (History.take (Effect.act ctx below m) step next t)) := by
  rcases hrun : (step.act ctx below m).run t with ⟨e | ⟨⟩, t'⟩
  · rw [History.take_error hrun]
    exact .other (not_fills_of_plain hplain rfl) (not_isNumber_of_plain hplain rfl) .nil
  · rw [History.take_ok hrun]
    exact .other (not_fills_of_plain hplain rfl) (not_isNumber_of_plain hplain rfl) (hnext t')

theorem numbered_history_append (hplain : ∀ phase ∈ phases, phase.All Effect.Plain)
    (hrest : ∀ t, Numbered (deedsOf m (Phase.history (Effect.act ctx below m) rest t)))
    (t : Record × σ) :
    Numbered (deedsOf m (Phase.history (Effect.act ctx below m) (phases ++ rest) t)) := by
  induction phases generalizing t with
  | nil => exact hrest t
  | cons phase phases ih =>
    rw [List.forall_mem_cons] at hplain
    have ih := ih hplain.2
    rw [List.cons_append]
    cases phase with
    | one step => exact numbered_take hplain.1 ih t
    | each find =>
      rw [Phase.history]
      split
      · next found t' hfind =>
        have hfound := hplain.1 t found t' hfind
        clear hfind
        induction found generalizing t' with
        | nil => exact ih t'
        | cons step found ihfound =>
          rw [List.forall_mem_cons] at hfound
          exact numbered_take hfound.1 (fun t => ihfound t hfound.2) t'
      · exact .nil
    | only test =>
      rw [Phase.history]
      split
      · exact ih t
      · exact .nil

theorem numbered_history_of_plain (hplain : ∀ phase ∈ phases, phase.All Effect.Plain)
    (t : Record × σ) :
    Numbered (deedsOf m (Phase.history (Effect.act ctx below m) phases t)) := by
  have hnil : ∀ t, Numbered (deedsOf m (Phase.history (Effect.act ctx below m) [] t)) :=
    fun _ => .nil
  have hhistory := numbered_history_append hplain hnil t
  rwa [List.append_nil] at hhistory

/-- A record without a number that counts as true takes one as soon as it has its defaults. -/
theorem numbered_history_fill
    (hrest : ∀ t, Numbered (deedsOf m (Phase.history (Effect.act ctx below m) rest t)))
    (t : Record × σ) :
    Numbered (deedsOf m
      (Phase.history (Effect.act ctx below m) (.one .fill :: .each unnumbered :: rest) t)) := by
  rw [Phase.history]
  rcases hfill : (Effect.fill.act ctx below m).run t with ⟨e | ⟨⟩, t₁⟩
  · rw [History.take_error hfill]
    have hfails : ∀ a : Taken (Record × σ) (Deed σ), a.outcome = .error e → ¬ Fills a := by
      rintro a houtcome ⟨-, hok⟩
      rw [houtcome] at hok
      cases hok
    have hother : ¬ (Deed.effect m Effect.fill).IsNumber := by
      rintro ⟨m', hnumber⟩
      cases hnumber
    exact .other (hfails _ rfl) hother .nil
  · rw [History.take_ok hfill]
    have hfills : Fills ⟨Deed.effect m .fill, t, .ok (), t₁⟩ := ⟨⟨m, rfl⟩, rfl⟩
    have hfind : unnumbered.run t₁ =
        (.ok (if t₁.1.id.isTruthy then [] else [.number]), t₁) := rfl
    simp only [Phase.history, hfind]
    cases htruthy : t₁.1.id.isTruthy with
    | true => exact .filled hfills htruthy (hrest t₁)
    | false =>
      simp only [Bool.false_eq_true, if_false, List.foldr_cons, List.foldr_nil]
      rcases hnumber : (Effect.number.act ctx below m).run t₁ with ⟨e | ⟨⟩, t₂⟩
      · rw [History.take_error hnumber]
        exact .asked hfills htruthy ⟨m, rfl⟩ .nil
      · rw [History.take_ok hnumber]
        exact .asked hfills htruthy ⟨m, rfl⟩ (hrest t₂)

/-! ## The deeds of moves -/

theorem plain_hearing (wanted : Bool) (events : List Event) (old : Option Record) :
    ∀ phase ∈ hearing ctx m wanted events old, phase.All Effect.Plain :=
  all_hearing fun _ _ _ _ _ _ => trivial

theorem plain_opening (o : SaveOptions) : ∀ phase ∈ .one .require :: merging o,
    (phase : Phase (Record × σ) (Effect σ)).All Effect.Plain := by
  rw [List.forall_mem_cons]
  refine ⟨trivial, ?_⟩
  unfold merging
  split
  · exact List.forall_mem_singleton.2 trivial
  · exact List.forall_mem_nil _

theorem plain_before (h : r.isNew = false) :
    ∀ phase ∈ before ctx m o r, phase.All Effect.Plain := by
  unfold before
  rw [if_neg (by simp [h]), List.forall_mem_append]
  refine ⟨?_, plain_hearing _ _ _⟩
  unfold updating
  rw [List.forall_mem_append, List.forall_mem_cons]
  refine ⟨all_casting fun _ _ => trivial, trivial, ?_⟩
  split
  · exact List.forall_mem_singleton.2 trivial
  · exact List.forall_mem_nil _

variable (ctx m o) in
/-- A new record is given its defaults and then a number. -/
theorem exists_before_eq_fill (h : r.isNew = true) :
    ∃ rest, before ctx m o r = .one .fill :: .each unnumbered :: rest ∧
      ∀ phase ∈ rest, phase.All Effect.Plain := by
  refine ⟨.one (.stamp [m.createdAt, m.updatedAt]) :: (casting m o.cast false ++
    hearing ctx m o.announce [.creating, .saving] none), by simp [before, preparing, h], ?_⟩
  rw [List.forall_mem_cons, List.forall_mem_append]
  exact ⟨trivial, all_casting fun _ _ => trivial, plain_hearing _ _ _⟩

/-- The phases that come after the preparation of a record. -/
theorem plain_closing (o : SaveOptions) (r : Record) :
    ∀ phase ∈ .one (writing r) :: after ctx m o r ++ .one .keep :: syncing m r,
      phase.All Effect.Plain := by
  rw [List.cons_append, List.forall_mem_cons, List.forall_mem_append, List.forall_mem_cons]
  refine ⟨?_, ?_, trivial, ?_⟩
  · unfold writing
    split
    · trivial
    · trivial
  · unfold after
    split
    · exact plain_hearing _ _ _
    · exact plain_hearing _ _ _
  · intro phase hmem
    obtain ⟨_, heffect, rfl⟩ := List.mem_map.1 hmem
    obtain ⟨rule, -, rfl⟩ := List.mem_map.1 heffect
    trivial

theorem numbered_saveHistory (o : SaveOptions) (t : Record × σ) :
    Numbered (deedsOf (ctx.model t.1.model) (saveHistory ctx below o t)) := by
  have hphases : saving ctx (ctx.model t.1.model) o t.1 =
      (.one .require :: merging o) ++ (before ctx (ctx.model t.1.model) o (merged o t.1) ++
        (.one (writing (merged o t.1)) :: after ctx (ctx.model t.1.model) o (merged o t.1) ++
          .one .keep :: syncing (ctx.model t.1.model) (merged o t.1))) := by
    simp [saving, storing]
  rw [saveHistory, hphases]
  apply numbered_history_append (plain_opening o)
  intro t'
  cases hnew : (merged o t.1).isNew with
  | false =>
    apply numbered_history_of_plain
    exact List.forall_mem_append.2 ⟨plain_before hnew, plain_closing o (merged o t.1)⟩
  | true =>
    obtain ⟨rest, hbefore, hplain⟩ :=
      exists_before_eq_fill ctx (ctx.model t.1.model) o hnew
    rw [hbefore]
    apply numbered_history_fill
    intro t₁
    apply numbered_history_of_plain
    exact List.forall_mem_append.2 ⟨hplain, plain_closing o (merged o t.1)⟩

variable (ctx below) in
theorem numbered_deeds (moves : List (Move × σ)) (r : Record) :
    Numbered (deeds ctx below moves r) := by
  induction moves generalizing r with
  | nil => exact .nil
  | cons first rest ih =>
    obtain ⟨move, s⟩ := first
    rw [deeds]
    apply Numbered.append _ (ih _)
    cases move with
    | edit e =>
      apply Numbered.other _ _ .nil
      · rintro ⟨⟨m, hfill⟩, -⟩
        cases hfill
      · rintro ⟨m, hnumber⟩
        cases hnumber
    | save o => exact numbered_saveHistory o (r, s)

variable (below) in
theorem linked_moves (hlog : ∀ entry s, ∃ s', (ctx.log entry).run s = (.ok (), s'))
    (moves : List (Move × σ)) (r : Record) :
    Linked (Deed.act ctx below) Prod.fst r (deeds ctx below moves r)
      (played ctx below moves r) := by
  induction moves generalizing r with
  | nil => exact .nil
  | cons first rest ih =>
    obtain ⟨move, s⟩ := first
    rw [deeds, played]
    exact (linked_deeds below hlog move (r, s)).append (ih _)

variable (ctx below) in
/-- Whatever is done to a record that leaves its number alone, saving it again and again included,
the number that it begins with is the one that is written, and the counter is not asked, exactly if
the number counts as true or no attempt gets as far as an insertion. The same holds of a number that
an attempt has drawn from the counter and of everything that is done later. -/
theorem keeps_number_iff (hlog : ∀ entry s, ∃ s', (ctx.log entry).run s = (.ok (), s'))
    (moves : List (Move × σ)) (r : Record) (hspares : SparesNumber (deeds ctx below moves r)) :
    (Kept r.id (deeds ctx below moves r) ↔
      r.id.isTruthy = true ∨ ∀ a ∈ deeds ctx below moves r, ¬ Fills a) ∧
    (∀ early a late n, deeds ctx below moves r = early ++ a :: late → Draws ctx a n →
      (Kept n late ↔ n.isTruthy = true ∨ ∀ b ∈ late, ¬ Fills b)) ∧
    ∀ o t, Ends ctx ((saveHistory ctx below o t).ending.outcome, (saveHistory ctx below o t).final)
      ((save ctx below o).run t) := by
  have hlinked := linked_moves below hlog moves r
  have hnumbered := numbered_deeds ctx below moves r
  refine ⟨kept_iff_of_linked hnumbered hlinked hspares, ?_, ends_saveHistory below hlog⟩
  intro early a late n hdeeds hdraws
  rw [hdeeds] at hlinked hnumbered hspares
  obtain ⟨hrun, hlate⟩ := hlinked.of_append
  have hnumber : a.step.IsNumber := by
    obtain ⟨m, s', hstep, -⟩ := hdraws
    exact ⟨m, hstep⟩
  have hspares' : SparesNumber late := by
    intro b hb
    exact hspares b (List.mem_append_right _ (List.mem_cons_of_mem _ hb))
  have hkept := kept_iff_of_linked (hnumbered.of_append hnumber) hlate hspares'
  rw [id_of_draws hrun hdraws] at hkept
  exact hkept

/-! ### A counter that stands still -/

/-- A database that always answers the same number and takes documents while it is up. -/
def counting (n : Int) : Context Bool :=
  { Context.sample [] fun _ => return 1 with
    execute
      | ⟨_, .findOneAndUpdate ..⟩ => return some [(.text "id", .int n)]
      | ⟨_, .insertOne _⟩ => do
        if ← get then return Value.int 7 else throw (.raised "down")
      | ⟨_, .replaceOne ..⟩ => return (1 : Int)
      | _ => throw (.raised "refused") }

def namelessShop : Record :=
  .ofData "Shop" []

def zerothShop : Record :=
  .ofData "Shop" [(.text "id", .int 0)]

/-- The deeds of a shop that is saved when the database is down and once more when it is up, and
then renamed. -/
def persistentDeeds (n : Int) (r : Record) : List (Taken (Record × Bool) (Deed Bool)) :=
  deeds (counting n) (cascade (counting n) 0) persistent r

theorem sparesNumber_persistent (hr : r = namelessShop ∨ r = zerothShop) :
    SparesNumber (persistentDeeds 8 r) := by
  rcases hr with rfl | rfl
  all_goals
    iterate 2 refine List.forall_mem_cons.2 ⟨fun _ _ => rfl, ?_⟩
    -- The number is drawn by the third deed.
    refine List.forall_mem_cons.2 ⟨fun hnumber => absurd ⟨_, rfl⟩ hnumber, ?_⟩
    iterate 12 refine List.forall_mem_cons.2 ⟨fun _ _ => rfl, ?_⟩
    exact List.forall_mem_nil _

/-- The number that is drawn by an attempt that fails is the one that is written later. -/
theorem keeps_number_iff_nameless :
    (∀ entry s, ∃ s', ((counting 8).log entry).run s = (.ok (), s')) ∧
      SparesNumber (persistentDeeds 8 namelessShop) ∧
      Kept (.int 8) ((persistentDeeds 8 namelessShop).drop 3) := by
  have hlog : ∀ entry s, ∃ s', ((counting 8).log entry).run s = (.ok (), s') :=
    fun _ s => ⟨s, rfl⟩
  have hspares := sparesNumber_persistent (.inl rfl)
  have hkept := keeps_number_iff (counting 8) (cascade (counting 8) 0) hlog persistent namelessShop
    hspares
  have hlater := hkept.2.1 ((persistentDeeds 8 namelessShop).take 2) _
    ((persistentDeeds 8 namelessShop).drop 3) (.int 8) rfl ⟨_, _, rfl, rfl⟩
  exact ⟨hlog, hspares, hlater.2 (.inl rfl)⟩

/-- A shop that has the number zero is stored under another one, although nobody touches it. -/
theorem not_kept_zero :
    zerothShop.id = .int 0 ∧ SparesNumber (persistentDeeds 8 zerothShop) ∧
      ¬ Kept zerothShop.id (persistentDeeds 8 zerothShop) := by
  refine ⟨rfl, sparesNumber_persistent (.inr rfl), ?_⟩
  intro hkept
  -- The insertion that succeeds is the ninth deed.
  have hinsert := (hkept _ (List.mem_of_getElem? (i := 8) rfl)).2 ⟨_, .inl rfl⟩
  have hnumber : Value.int 8 = .int 0 := hinsert
  cases hnumber

end DocumentMapper.Lifecycle
