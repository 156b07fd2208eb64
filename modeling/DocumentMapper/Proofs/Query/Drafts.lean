import DocumentMapper.Query.Joining

/-!
# Drafts of calls

What a call of a query builder is going to put down can be told before it is made: one stage after
another, up to the first one that there is a reason not to have. Such a list is the draft of the
call. A draft says both what the call leaves behind and what it ends with, and no draft but that of
a random sample without a size looks at the stages that are there.
-/

namespace DocumentMapper

/-- The stages of a call in turn; a failure stands for a stage that cannot be had. -/
abbrev Draft := List (Except Error Stage)

namespace Draft

variable {α : Type}

/-- The stages before the first failure. -/
def placed : Draft → List Stage
  | .ok s :: rest => s :: placed rest
  | _ => []

/-- The first failure, if there is one. -/
def outcome : Draft → Except Error Unit
  | [] => .ok ()
  | .ok _ :: rest => outcome rest
  | .error e :: _ => .error e

/-- The draft of a call that needs a value first. -/
def after (found : Except Error α) (next : α → Draft) : Draft :=
  match found with
  | .ok a => next a
  | .error e => [.error e]

@[simp] theorem placed_nil : placed [] = [] := rfl

@[simp] theorem placed_ok (s : Stage) (rest : Draft) : placed (.ok s :: rest) = s :: placed rest :=
  rfl

@[simp] theorem placed_error (e : Error) (rest : Draft) : placed (.error e :: rest) = [] := rfl

@[simp] theorem outcome_nil : outcome [] = .ok () := rfl

@[simp] theorem outcome_ok (s : Stage) (rest : Draft) :
    outcome (.ok s :: rest) = outcome rest := rfl

@[simp] theorem outcome_error (e : Error) (rest : Draft) :
    outcome (.error e :: rest) = .error e := rfl

/-- A second draft goes on behind a first one that does not fail. -/
theorem append_of_ok {first : Draft} (h : first.outcome = .ok ()) (second : Draft) :
    outcome (first ++ second) = outcome second ∧
      placed (first ++ second) = placed first ++ placed second := by
  induction first with
  | nil => exact ⟨rfl, rfl⟩
  | cons step rest ih =>
    cases step with
    | error e => cases h
    | ok s =>
      obtain ⟨houtcome, hplaced⟩ := ih h
      exact ⟨houtcome, congrArg (s :: ·) hplaced⟩

/-- Nothing of a second draft comes behind a first one that fails. -/
theorem append_of_error {first : Draft} {e : Error} (h : first.outcome = .error e)
    (second : Draft) :
    outcome (first ++ second) = .error e ∧ placed (first ++ second) = placed first := by
  induction first with
  | nil => cases h
  | cons step rest ih =>
    cases step with
    | error e' => exact ⟨h, rfl⟩
    | ok s =>
      obtain ⟨houtcome, hplaced⟩ := ih h
      exact ⟨houtcome, congrArg (s :: ·) hplaced⟩

theorem outcome_append_eq_ok {first second : Draft} :
    outcome (first ++ second) = .ok () ↔ outcome first = .ok () ∧ outcome second = .ok () := by
  cases h : outcome first with
  | error e =>
    rw [(append_of_error h second).1]
    simp
  | ok =>
    rw [(append_of_ok h second).1]
    simp

theorem outcome_singleton {found : Except Error Stage} :
    outcome [found] = .ok () ↔ ∃ s, found = .ok s := by
  cases found <;> simp

theorem outcome_after {found : Except Error α} {next : α → Draft} :
    outcome (after found next) = .ok () ↔ ∃ a, found = .ok a ∧ outcome (next a) = .ok () := by
  cases found <;> simp [after]

/-- A draft that fails has a first failure, with the stages put down in front of it. -/
theorem outcome_eq_error {draft : Draft} {e : Error} :
    draft.outcome = .error e ↔
      ∃ rest, draft = (draft.placed.map Except.ok : Draft) ++ .error e :: rest := by
  induction draft with
  | nil => simp
  | cons step rest ih =>
    cases step with
    | error e' => simp
    | ok s => simpa using ih

end Draft

/-- An action that goes through a draft: it ends as the draft does, and puts the stages of the draft
behind those that are there. -/
def Follows {τ : Type} (view : τ → List Stage) (draft : Draft) (act : Action τ Unit) : Prop :=
  ∀ t, (act.run t).1 = draft.outcome ∧ view (act.run t).2 = view t ++ draft.placed

namespace Follows

variable {τ α : Type} {view : τ → List Stage} {draft more : Draft} {act next : Action τ Unit}

theorem pure : Follows view [] (Pure.pure () : Action τ Unit) :=
  fun _ => ⟨rfl, (List.append_nil _).symm⟩

theorem modify {f : τ → τ} (hf : ∀ t, view (f t) = view t) :
    Follows view [] (modify f : Action τ Unit) :=
  fun t => ⟨rfl, (hf t).trans (List.append_nil _).symm⟩

theorem ofExcept {found : Except Error α} {next : α → Action τ Unit} {draft : α → Draft}
    (h : ∀ a, Follows view (draft a) (next a)) :
    Follows view (Draft.after found draft) (Action.ofExcept found >>= next) := by
  intro t
  cases found with
  | error e => exact ⟨rfl, (List.append_nil _).symm⟩
  | ok a => exact h a t

theorem bind (h : Follows view draft act) (hnext : Follows view more next) :
    Follows view (draft ++ more) (act >>= fun _ => next) := by
  intro t
  obtain ⟨houtcome, hview⟩ := h t
  rw [Action.run_bind]
  rcases hact : act.run t with ⟨e | ⟨⟨⟩⟩, t₁⟩
  · rw [hact] at houtcome hview
    obtain ⟨hend, hplaced⟩ := Draft.append_of_error houtcome.symm more
    rw [hend, hplaced]
    exact ⟨rfl, hview⟩
  · rw [hact] at houtcome hview
    obtain ⟨hend, hplaced⟩ := Draft.append_of_ok houtcome.symm more
    obtain ⟨hlast, hmore⟩ := hnext t₁
    rw [hend, hplaced]
    refine ⟨hlast, ?_⟩
    rw [hmore, hview, List.append_assoc]

/-- An action on a pipeline is what its draft says. -/
theorem eq {act act' : Action (List Stage) Unit} (h : Follows id draft act)
    (h' : Follows id draft act') : act = act' := by
  ext stages : 2
  obtain ⟨houtcome, hstages⟩ := h stages
  obtain ⟨houtcome', hstages'⟩ := h' stages
  exact Prod.ext (houtcome.trans houtcome'.symm) (hstages.trans hstages'.symm)

end Follows

/-! ## Refinements -/

namespace Refinement

/-- The stage that adds one field. -/
def oneField (field content : Value) : Except Error Stage := do
  .ok (Stage.addFields (.dict [(← field.asKey, content)]))

def filtered (parts : List Value) : Except Error Stage :=
  Stage.filter <$> Filter.ofClause parts

/-- A join, and for a single match the field that takes its place. -/
def lookupDraft (options : Value) : Draft :=
  Stage.lookup options :: Draft.after (options.entriesFor "get") fun entries =>
    let landing := entries.fieldOrNull "as"
    if (entries.fieldOrNull "single").isTruthy && landing.isTruthy then
      Draft.after (Expression.first landing) fun content => [oneField landing content]
    else []

/-- A random sample of as many documents as are asked for, or as the first limit says. -/
def sampled (stages : List Stage) (size : Value) : Except Error Stage :=
  let size := size.orElse (firstLimit stages)
  if size.isTruthy then .ok (.sample size) else .error .missingLimit

/-- The draft of a refinement of a pipeline. Starting anew puts nothing down. -/
def draft (stages : List Stage) : Refinement → Draft
  | stage s => [.ok s]
  | raw v => [Stage.ofValue v]
  | raws v => Draft.after v.parts fun items => items.map Stage.ofValue
  | clause parts => [filtered parts]
  | anyOf operations => [Stage.anyOf (alternatives operations)]
  | compare column operator others =>
    Draft.after (comparison column operator others) fun f => [filtered [f]]
  | near column place maxDistance => [Stage.filter <$> nearby column place maxDistance]
  | arraySize column condition => Draft.after (Column.reference column) fun reference =>
    [.ok (.addFields (.dict [(sizeColumn column, .single "$size" reference)])),
      filtered (sizeColumn column :: condition)]
  | select columns => [Stage.select (spread true columns)]
  | deselect columns => [Stage.deselect (spread false columns)]
  | project payload => [.ok (.project payload)]
  | addFields fields => [.ok (.addFields fields)]
  | addField field content => [oneField field content]
  | unwind column keepEmpty index => [Stage.unwind column keepEmpty index]
  | lookup options => lookupDraft options
  | sort column direction => [Stage.sort column direction]
  | sortBy columns => [Stage.sortBy columns]
  | sample size => [sampled stages size]
  | skip count => [.ok (.skip count)]
  | limit count => [.ok (.limit count)]
  | group (.stage name payload) _ => [.ok ⟨name, payload⟩]
  | group key accumulators => [Stage.group key accumulators]
  | groupByDate parts column accumulators =>
    Draft.after (dateKey column parts) fun key => [Stage.group (.dict key) accumulators]
  | reset => []

/-- A refinement that does not look at the stages that are there and keeps them all. -/
def isPlain : Refinement → Bool
  | sample size => size.isTruthy
  | reset => false
  | _ => true

theorem follows_add (s : Stage) : Follows id [.ok s] (add s) :=
  fun _ => ⟨rfl, rfl⟩

theorem follows_addIf (s : Except Error Stage) : Follows id [s] (addIf s) := by
  cases s with
  | error e => exact fun _ => ⟨rfl, (List.append_nil _).symm⟩
  | ok s => exact follows_add s

theorem follows_addRaws (items : List Value) :
    Follows id (items.map Stage.ofValue) (addRaws items) := by
  induction items with
  | nil => exact .pure
  | cons v rest ih => exact (follows_addIf (Stage.ofValue v)).bind ih

theorem follows_addLookup (options : Value) :
    Follows id (lookupDraft options) (addLookup options) := by
  refine (follows_addIf (Stage.lookup options)).bind (.ofExcept fun entries => ?_)
  dsimp only
  split
  · exact .ofExcept fun content => follows_addIf (oneField (entries.fieldOrNull "as") content)
  · exact .pure

theorem run_sample (stages : List Stage) (size : Value) :
    (sample size).apply.run stages = (addIf (sampled stages size)).run stages := by
  unfold apply sampled
  rw [Action.run_bind_ok (Action.run_get stages)]
  dsimp only
  split <;> rfl

theorem sampled_of_isTruthy {size : Value} (hsize : size.isTruthy = true) (stages : List Stage) :
    sampled stages size = .ok (.sample size) := by
  simp [sampled, Value.orElse, hsize]

/-- A plain refinement goes through its draft, whatever the pipeline. -/
theorem follows_apply {r : Refinement} (hr : r.isPlain = true) (stages : List Stage) :
    Follows id (r.draft stages) r.apply := by
  cases r with
  | stage s => exact follows_add s
  | raw v => exact follows_addIf (Stage.ofValue v)
  | raws v => exact .ofExcept follows_addRaws
  | clause parts => exact follows_addIf (filtered parts)
  | anyOf operations => exact follows_addIf (Stage.anyOf (alternatives operations))
  | compare column operator others => exact .ofExcept fun f => follows_addIf (filtered [f])
  | near column place maxDistance =>
    exact follows_addIf (Stage.filter <$> nearby column place maxDistance)
  | arraySize column condition =>
    exact .ofExcept fun reference =>
      (follows_add _).bind (follows_addIf (filtered (sizeColumn column :: condition)))
  | select columns => exact follows_addIf (Stage.select (spread true columns))
  | deselect columns => exact follows_addIf (Stage.deselect (spread false columns))
  | project payload => exact follows_add (.project payload)
  | addFields fields => exact follows_add (.addFields fields)
  | addField field content => exact follows_addIf (oneField field content)
  | unwind column keepEmpty index => exact follows_addIf (Stage.unwind column keepEmpty index)
  | lookup options => exact follows_addLookup options
  | sort column direction => exact follows_addIf (Stage.sort column direction)
  | sortBy columns => exact follows_addIf (Stage.sortBy columns)
  | sample size =>
    intro t
    have hsize : sampled t size = sampled stages size := by
      rw [sampled_of_isTruthy hr, sampled_of_isTruthy hr]
    rw [run_sample, hsize]
    exact follows_addIf (sampled stages size) t
  | skip count => exact follows_add (.skip count)
  | limit count => exact follows_add (.limit count)
  | group key accumulators =>
    cases key with
    | stage name payload => exact follows_add ⟨name, payload⟩
    | _ => exact follows_addIf _
  | groupByDate parts column accumulators =>
    exact .ofExcept fun key => follows_addIf (Stage.group (.dict key) accumulators)
  | reset => cases hr

/-- Every refinement but starting anew goes through its draft on the pipeline at hand. -/
theorem run_apply {r : Refinement} (hr : r ≠ reset) (stages : List Stage) :
    (r.apply.run stages).1 = (r.draft stages).outcome ∧
      (r.apply.run stages).2 = stages ++ (r.draft stages).placed := by
  by_cases hplain : r.isPlain = true
  · exact follows_apply hplain stages stages
  · cases r with
    | sample size =>
      rw [run_sample]
      exact follows_addIf (sampled stages size) stages
    | reset => exact absurd rfl hr
    | _ => exact absurd rfl hplain

end Refinement

/-! ## Calls of queries -/

namespace Query

variable {σ : Type} {m : Model σ}

/-- A call that extends the pipeline of a query: a refinement, or a join by what the model of the
query declares. -/
inductive Extension where
  | refine (r : Refinement)
  | join (ref : JoinRef) (extras : JoinExtras)
  | joinCount (ref : JoinRef) (extras : JoinExtras)
  | relate (name : String) (params : List Value)

theorem follows_onStages {draft : Draft} {act : Action (List Stage) Unit}
    (h : Follows id draft act) : Follows Query.stages draft (onStages act) :=
  fun q => h q.stages

/-- The name of the field with the number of the records joined. -/
def countField (j : Joinable) (extras : JoinExtras) : Value :=
  extras.landing.orElse (.text (j.landing.display ++ "Count"))

/-- The draft of a join, which must be able to say what becomes of the records. -/
def joinDraft (m : Model σ) (ref : JoinRef) (extras : JoinExtras) : Draft :=
  Draft.after (resolve m ref) fun j =>
    Draft.after ((joinOptions extras).run j).1 fun options =>
      let stages := Refinement.lookupDraft (.dict options)
      if j.transform.isSome then Draft.after (options.fieldOrNull "as").asKey fun _ => stages
      else stages

namespace Extension

/-- What a call does to a query of a model. -/
def act (m : Model σ) : Extension → Action Query Unit
  | refine r => onStages r.apply
  | join ref extras => Query.join m ref extras
  | joinCount ref extras => Query.joinCount m ref extras
  | relate name params => Query.relate m name params

/-- The draft of a call on a pipeline. -/
def draft (m : Model σ) (stages : List Stage) : Extension → Draft
  | refine r => r.draft stages
  | join ref extras => joinDraft m ref extras
  | joinCount ref extras => Draft.after (resolve m ref) fun j =>
    joinDraft m (.given j) { extras with landing := .null } ++
      Draft.after (Column.reference j.landing) fun size =>
        [Refinement.oneField (countField j extras) (.single "$size" size)]
  | relate name params =>
    match m.relations.lookup name with
    | none => [.error (.relationNotFound name m.name)]
    | some relation => Draft.after (do relationOptions name (← relation params)) fun options =>
      Refinement.lookupDraft (.dict options)

/-- A call that does not look at the stages that are there and keeps them all. -/
def isPlain : Extension → Bool
  | refine r => r.isPlain
  | _ => true

end Extension

theorem follows_join (ref : JoinRef) (extras : JoinExtras) :
    Follows Query.stages (joinDraft m ref extras) (join m ref extras) := by
  refine .ofExcept fun j => .ofExcept fun options => ?_
  have hstages : Follows Query.stages (Refinement.lookupDraft (.dict options))
      (onStages (Refinement.lookup (.dict options)).apply) :=
    follows_onStages (Refinement.follows_addLookup (.dict options))
  cases htransform : j.transform with
  | none => exact hstages
  | some t => exact .ofExcept fun landing => (Follows.modify fun _ => rfl).bind hstages

/-- A call that is plain goes through its draft, whatever the pipeline. -/
theorem follows_act {c : Extension} (hc : c.isPlain = true) (stages : List Stage) :
    Follows Query.stages (c.draft m stages) (c.act m) := by
  cases c with
  | refine r => exact follows_onStages (Refinement.follows_apply hc stages)
  | join ref extras => exact follows_join ref extras
  | joinCount ref extras =>
    refine .ofExcept fun j => (follows_join _ _).bind (.ofExcept fun size => ?_)
    exact follows_onStages (Refinement.follows_addIf _)
  | relate name params =>
    simp only [Extension.act, Extension.draft, relate]
    cases m.relations.lookup name with
    | none => exact fun q => ⟨rfl, (List.append_nil _).symm⟩
    | some relation =>
      refine .ofExcept fun options => ?_
      exact follows_onStages (Refinement.follows_addLookup (.dict options))

/-- Every call but starting anew goes through its draft on the pipeline at hand. -/
theorem run_act_of_ne {c : Extension} (hc : c ≠ .refine .reset) (q : Query) :
    ((c.act m).run q).1 = (c.draft m q.stages).outcome ∧
      ((c.act m).run q).2.stages = q.stages ++ (c.draft m q.stages).placed := by
  cases c with
  | refine r =>
    have hr : r ≠ .reset := fun h => hc (congrArg Extension.refine h)
    exact Refinement.run_apply hr q.stages
  | _ => exact follows_act rfl q.stages q

end Query

end DocumentMapper
