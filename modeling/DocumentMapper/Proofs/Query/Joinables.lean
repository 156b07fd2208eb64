import DocumentMapper.Proofs.Document.Fields
import DocumentMapper.Proofs.Model.Sample
import DocumentMapper.Proofs.Query.Drafts

/-!
# The options of a join

A joinable is built step by step, in any order, and read off at the end. What was left out is filled
in then, the refinements become the pipeline, and nothing but the refinements is used up.

Both defaults come from the name of the joined model. Where the records land under a name of their
own, the local field is still called after the model and not after that name.
-/

namespace DocumentMapper

namespace Value

theorem orElse_of_truthy {v : Value} (h : v.isTruthy = true) (fallback : Value) :
    v.orElse fallback = v := by
  simp [orElse, h]

theorem orElse_of_not_truthy {v : Value} (h : v.isTruthy = false) (fallback : Value) :
    v.orElse fallback = fallback := by
  simp [orElse, h]

end Value

/-! ## The stages of a join -/

/-- The stage that joins a collection, with what the options of the join say. -/
def Stage.ofJoin (source landing : Value) (options : Document) : Stage :=
  ⟨"lookup", .ofEntries (("from", source) ::
    entryIf (!·.isNull) "localField" (options.fieldOrNull "localField") ++
    entryIf (!·.isNull) "foreignField" (options.fieldOrNull "foreignField") ++
    ("as", landing) :: entryIf Value.isTruthy "let" (options.fieldOrNull "let") ++
    entryIf Value.isTruthy "pipeline" (options.fieldOrNull "pipeline"))⟩

/-- What comes behind the stage of a join: for a single match the field that takes its place. -/
def Draft.ofSingle (single landing : Value) : Draft :=
  if single.isTruthy && landing.isTruthy then
    Draft.after (Expression.first landing) fun content => [Refinement.oneField landing content]
  else []

theorem Refinement.lookupDraft_dict {options : Document} {source landing : Value}
    (hsource : options.field? "from" = some source)
    (hlanding : options.field? "as" = some landing) :
    lookupDraft (.dict options) = .ok (Stage.ofJoin source landing options) ::
      Draft.ofSingle (options.fieldOrNull "single") landing := by
  have hfield : options.fieldOrNull "as" = landing := by
    rw [Document.fieldOrNull, hlanding]
    rfl
  have hstage : Stage.lookup (.dict options) = .ok (Stage.ofJoin source landing options) := by
    simp only [Stage.lookup, Value.field, hsource, hlanding]
    rfl
  rw [lookupDraft, hstage]
  simp only [Value.entriesFor, Draft.after, hfield, Draft.ofSingle]

namespace Joinable

variable {j : Joinable} {options : Document} {name : String} {v key : Value}

/-! ## Filling in -/

theorem field?_fill_self (options : Document) (name : String) (v : Value) :
    (fill options name v).field? name = some ((options.fieldOrNull name).orElse v) := by
  unfold fill
  by_cases h : (options.fieldOrNull name).isTruthy = true
  · rw [if_pos h, Value.orElse_of_truthy h]
    exact Document.field?_of_isTruthy h
  · rw [if_neg h, Document.field?_putField_self, Value.orElse_of_not_truthy (by simpa using h)]

theorem get?_fill_of_ne (h : key ≠ .text name) :
    (fill options name v).get? key = options.get? key := by
  unfold fill
  split
  · rfl
  · exact Document.get?_putField_of_ne h

/-- The options with everything that was left out, but without the refinements. -/
def filled (j : Joinable) : Document :=
  fill (fill j.options "as" j.defaultName) "localField" (.text (j.defaultName.display ++ ".id"))

theorem lookup_eq (j : Joinable) : j.lookup =
    if j.stages.isEmpty then j.filled
    else j.filled.putField "pipeline" (.list (j.stages.map Stage.wire)) := rfl

theorem run_take (j : Joinable) : take.run j = (.ok j.lookup, { j with stages := [] }) := rfl

theorem get?_lookup_of_ne (h : key ≠ .text "pipeline") : j.lookup.get? key = j.filled.get? key := by
  rw [lookup_eq]
  split
  · rfl
  · exact Document.get?_putField_of_ne h

theorem get?_filled_of_ne (hlanding : key ≠ .text "as") (hlocal : key ≠ .text "localField") :
    j.filled.get? key = j.options.get? key := by
  rw [filled, get?_fill_of_ne hlocal, get?_fill_of_ne hlanding]

theorem field?_lookup_landing (j : Joinable) : j.lookup.field? "as" = some j.landing := by
  have hne : Value.text "as" ≠ .text "localField" := by simp
  rw [Document.field?, get?_lookup_of_ne (by simp), filled, get?_fill_of_ne hne]
  exact field?_fill_self j.options "as" j.defaultName

theorem field?_lookup_localField (j : Joinable) : j.lookup.field? "localField" =
    some ((j.option "localField").orElse (.text (j.defaultName.display ++ ".id"))) := by
  have hne : Value.text "localField" ≠ .text "as" := by simp
  have hoption : (fill j.options "as" j.defaultName).fieldOrNull "localField" =
      j.option "localField" := by
    rw [Document.fieldOrNull, Document.field?, get?_fill_of_ne hne]
    rfl
  rw [Document.field?, get?_lookup_of_ne (by simp), ← hoption]
  exact field?_fill_self _ "localField" _

theorem field?_lookup_pipeline (j : Joinable) : j.lookup.field? "pipeline" =
    if j.stages.isEmpty then j.options.field? "pipeline"
    else some (.list (j.stages.map Stage.wire)) := by
  rw [lookup_eq]
  split
  · exact get?_filled_of_ne (by simp) (by simp)
  · exact Document.field?_putField_self _ _ _

theorem field?_lookup_of_ne (hlanding : name ≠ "as") (hlocal : name ≠ "localField")
    (hpipeline : name ≠ "pipeline") : j.lookup.field? name = j.options.field? name := by
  rw [Document.field?, get?_lookup_of_ne (by simpa using hpipeline),
    get?_filled_of_ne (by simpa using hlanding) (by simpa using hlocal)]
  rfl

theorem fieldOrNull_lookup_of_ne (hlanding : name ≠ "as") (hlocal : name ≠ "localField")
    (hpipeline : name ≠ "pipeline") : j.lookup.fieldOrNull name = j.option name := by
  rw [Document.fieldOrNull, field?_lookup_of_ne hlanding hlocal hpipeline]
  rfl

/-- What a query puts down for the options of a joinable. -/
theorem lookupDraft_lookup {source : Value} (h : j.options.field? "from" = some source) :
    Refinement.lookupDraft (.dict j.lookup) = .ok (Stage.ofJoin source j.landing j.lookup) ::
      Draft.ofSingle (j.option "single") j.landing := by
  have hsource : j.lookup.field? "from" = some source := by
    rw [field?_lookup_of_ne (by decide) (by decide) (by decide), h]
  have hsingle : j.lookup.fieldOrNull "single" = j.option "single" :=
    fieldOrNull_lookup_of_ne (by decide) (by decide) (by decide)
  rw [Refinement.lookupDraft_dict hsource j.field?_lookup_landing, hsingle]

/-- A joinable on the collection of its model is copied as it is. -/
theorem clone_eq (h : j.options.field? "from" = some (.text j.schema.collection)) :
    j.clone = j := by
  have hsame : j.options.putField "from" (.text j.schema.collection) = j.options :=
    Document.putField_of_field? h
  simp only [clone, withOptions, hsame, ite_self]

/-! ## Changes in turn -/

/-- A joinable after some changes, the next one also made after one that has failed. -/
def changed (changes : List Change) (j : Joinable) : Joinable :=
  changes.foldl (fun j change => ((apply change).run j).2) j

/-- The refinements among some changes. -/
def refinements (changes : List Change) : List Refinement :=
  changes.filterMap fun
    | .refine r => some r
    | _ => none

/-- A pipeline after some refinements, the next one also made after one that has failed. -/
def refined (rs : List Refinement) (stages : List Stage) : List Stage :=
  rs.foldl (fun stages r => (r.apply.run stages).2) stages

/-- The refinements of a joinable are those of a pipeline, whatever else is changed in between. -/
theorem stages_changed (changes : List Change) (j : Joinable) :
    (changed changes j).stages = refined (refinements changes) j.stages := by
  induction changes generalizing j with
  | nil => rfl
  | cons change rest ih =>
    show (changed rest ((apply change).run j).2).stages = _
    rw [ih]
    cases change <;> rfl

/-- Plain refinements put down one after another what each of them puts down by itself. -/
theorem refined_of_plain {rs : List Refinement} (h : ∀ r ∈ rs, r.isPlain = true)
    (stages : List Stage) :
    refined rs stages = stages ++ rs.flatMap fun r => (r.apply.run []).2 := by
  induction rs generalizing stages with
  | nil => exact (List.append_nil stages).symm
  | cons r rest ih =>
    obtain ⟨hr, hrest⟩ := List.forall_mem_cons.1 h
    have hfollows := Refinement.follows_apply hr []
    have hnew : (r.apply.run stages).2 = stages ++ (r.apply.run []).2 := by
      have hstages := (hfollows stages).2
      have hempty := (hfollows []).2
      simp only [id, List.nil_append] at hstages hempty
      rw [hstages, hempty]
    show refined rest (r.apply.run stages).2 = _
    rw [ih hrest, hnew, List.flatMap_cons, List.append_assoc]

theorem run_refine {act : Action (List Stage) Unit} {outcome : Except Error Unit}
    {stages : List Stage} (h : act.run j.stages = (outcome, stages)) :
    (refine act).run j = (outcome, { j with stages }) := by
  simp only [refine, Action.within, h]

/-- Refining a joinable is refining its pipeline. -/
theorem forM_refine (rs : List Refinement) :
    (rs.map Change.refine).forM apply = refine (rs.forM Refinement.apply) := by
  induction rs with
  | nil => rfl
  | cons r rest ih =>
    ext j : 2
    show (refine r.apply >>= fun _ => (rest.map Change.refine).forM apply).run j =
      (refine (r.apply >>= fun _ => rest.forM Refinement.apply)).run j
    rw [ih]
    rcases hfirst : r.apply.run j.stages with ⟨e | ⟨⟨⟩⟩, stages⟩
    · rw [Action.run_bind_error (run_refine hfirst), run_refine (Action.run_bind_error hfirst)]
    · rcases hlast : (rest.forM Refinement.apply).run stages with ⟨outcome, last⟩
      rw [Action.run_bind_ok (run_refine hfirst),
        run_refine (j := { j with stages }) hlast,
        run_refine (j := j) ((Action.run_bind_ok hfirst).trans hlast)]

/-- Plain refinements of a joinable go through their drafts, one after another. -/
theorem run_refinements {rs : List Refinement} (h : ∀ r ∈ rs, r.isPlain = true) (j : Joinable) :
    ((rs.map Change.refine).forM apply).run j =
      (Draft.outcome (rs.flatMap (Refinement.draft [])),
        { j with stages := j.stages ++ Draft.placed (rs.flatMap (Refinement.draft [])) }) := by
  have hfollows : Follows id (rs.flatMap (Refinement.draft [])) (rs.forM Refinement.apply) := by
    induction rs with
    | nil => exact .pure
    | cons r rest ih =>
      obtain ⟨hr, hrest⟩ := List.forall_mem_cons.1 h
      exact (Refinement.follows_apply hr []).bind (ih hrest)
  obtain ⟨houtcome, hstages⟩ := hfollows j.stages
  rw [forM_refine]
  exact run_refine (Prod.ext houtcome hstages)

/-! ## Reading the options off -/

/-- What reading the options off gives and leaves: a place for the records, a local field, named
after something if it was left out, and the stages of the refinements. All else is as it was
given, also afterwards, when only the refinements are gone. -/
structure Compiles (named : Value) (stages : List Stage) (j : Joinable) (options : Document)
    (j' : Joinable) : Prop where
  landing : options.field? "as" = some j.landing
  localField : options.field? "localField" =
    some ((j.option "localField").orElse (.text (named.display ++ ".id")))
  pipeline : options.field? "pipeline" =
    if stages.isEmpty then j.options.field? "pipeline" else some (.list (stages.map Stage.wire))
  others : ∀ key, key ≠ .text "as" → key ≠ .text "localField" → key ≠ .text "pipeline" →
    options.get? key = j.options.get? key
  kept : j' = { j with stages := [] }
  again : ∃ options', take.run j' = (.ok options', j') ∧
    options'.field? "pipeline" = j.options.field? "pipeline" ∧
    ∀ key, key ≠ .text "pipeline" → options'.get? key = options.get? key

/-- The options are read off with a local field that is named after the model. -/
theorem compiles_take (j : Joinable) :
    Compiles j.defaultName j.stages j j.lookup { j with stages := [] } where
  landing := j.field?_lookup_landing
  localField := j.field?_lookup_localField
  pipeline := j.field?_lookup_pipeline
  others key hlanding hlocal hpipeline := by
    rw [get?_lookup_of_ne hpipeline, get?_filled_of_ne hlanding hlocal]
  kept := rfl
  again := by
    refine ⟨_, run_take _, ?_, ?_⟩
    · rw [field?_lookup_pipeline]
      rfl
    · intro key hkey
      rw [get?_lookup_of_ne hkey, get?_lookup_of_ne hkey]
      rfl

theorem orElse_text_eq_iff {v : Value} {s t : String} :
    v.orElse (.text s) = v.orElse (.text t) ↔ v.isTruthy = true ∨ s = t := by
  cases h : v.isTruthy <;> simp [Value.orElse, h]

/-- The options of a joinable after any changes. The local field is named after the place where the
records land exactly if it was given, or that place was not, or has the name of the model. -/
theorem take_compiles_iff (s : Schema) (changes : List Change) :
    let j := changed changes (fresh s)
    let stages := refined (refinements changes) []
    ∃ options j', take.run j = (.ok options, j') ∧
      Compiles j.defaultName stages j options j' ∧
      (Compiles j.landing stages j options j' ↔ (j.option "localField").isTruthy = true ∨
        (j.option "as").isTruthy = false ∨ (j.option "as").display = j.defaultName.display) ∧
      ((∀ r ∈ refinements changes, r.isPlain = true) →
        stages = (refinements changes).flatMap fun r => (r.apply.run []).2) := by
  intro j stages
  have hstages : j.stages = stages := stages_changed changes (fresh s)
  have hmodel : Compiles j.defaultName stages j j.lookup { j with stages := [] } := by
    rw [← hstages]
    exact compiles_take j
  have hnames : j.landing.display ++ ".id" = j.defaultName.display ++ ".id" ↔
      (j.option "as").isTruthy = false ∨ (j.option "as").display = j.defaultName.display := by
    rw [String.append_left_inj]
    cases h : (j.option "as").isTruthy <;> simp [landing, Value.orElse, h]
  refine ⟨j.lookup, _, run_take j, hmodel, ?_, ?_⟩
  · rw [← hnames]
    constructor
    · intro hlanding
      have heq := hlanding.localField.symm.trans hmodel.localField
      exact orElse_text_eq_iff.1 (Option.some.inj heq)
    · intro hlocal
      have heq := orElse_text_eq_iff.2 hlocal
      exact { hmodel with localField := hmodel.localField.trans (congrArg some heq.symm) }
  · intro hplain
    simpa using refined_of_plain hplain []

/-- The orders of a collection of their own. -/
def orders : Schema :=
  { Schema.plain "Order" with collection := "orders" }

/-- The three last paid orders, under a name of their own, joined by the id. -/
def paid : List Change :=
  [.option "as" (.text "paid"), .refine (.clause [.text "status", .text "paid"]),
    .option "localField" (.text "id"), .refine (.sort (.text "id") (.text "desc")),
    .refine (.limit (.int 3))]

theorem take_compiles_iff_paid :
    let j := changed paid (fresh orders)
    ∃ options j', take.run j = (.ok options, j') ∧
      options.field? "as" = some (.text "paid") ∧ options.field? "localField" = some (.text "id") ∧
      options.field? "pipeline" = some (.list
        [.single "$match" (.single "status" (.single "$eq" (.text "paid"))),
          .single "$sort" (.single "id" (.int (-1))), .single "$limit" (.int 3)]) ∧
      j'.options = j.options ∧ j'.stages = [] := by
  intro j
  obtain ⟨options, j', hrun, -, hiff, -⟩ := take_compiles_iff orders paid
  have hnamed := hiff.2 (.inl rfl)
  refine ⟨options, j', hrun, hnamed.landing, hnamed.localField, hnamed.pipeline, ?_, ?_⟩
  · rw [hnamed.kept]
  · rw [hnamed.kept]

/-- Orders that land under another name than theirs are joined by a field of a name that nothing
else has. -/
theorem not_compiles_purchases :
    let j := changed [.option "as" (.text "purchases")] (fresh orders)
    ∃ options j', take.run j = (.ok options, j') ∧
      options.field? "localField" = some (.text "orders.id") ∧
      j.landing = .text "purchases" ∧ ¬ Compiles j.landing [] j options j' := by
  intro j
  refine ⟨j.lookup, _, run_take j, rfl, rfl, ?_⟩
  intro h
  have hlocal : some (Value.text "orders.id") = some (.text "purchases.id") := h.localField
  simp at hlocal

end Joinable

end DocumentMapper
