import DocumentMapper.Proofs.Query.Joinables

/-!
# Relations as joinables

A relation describes a join in one piece, a joinable step by step. What a relation says can be said
to a joinable of the same model, one call after another, and then both ways of joining come to the
same: the stages of the pipeline are read in the same order, so that both fail for the same reason
if one of them cannot be read, and what a query is given in the end differs only in entries that
say nothing.
-/

namespace DocumentMapper

namespace Draft

/-- The wire forms of stages that are read one after another. -/
theorem mapM_wire (items : List Value) :
    items.mapM (fun v => Stage.wire <$> Stage.ofValue v) =
      (outcome (items.map Stage.ofValue)).map fun _ =>
        (placed (items.map Stage.ofValue)).map Stage.wire := by
  induction items with
  | nil => rfl
  | cons v rest ih =>
    rw [List.mapM_cons, ih, List.map_cons]
    cases Stage.ofValue v with
    | error e => rfl
    | ok s =>
      rw [outcome_ok, placed_ok]
      cases outcome (rest.map Stage.ofValue) <;> rfl

end Draft

theorem Action.ofExcept_ok_bind {σ α β : Type} (a : α) (next : α → Action σ β) :
    (Action.ofExcept (.ok a) >>= next) = next a := rfl

namespace Query

variable {σ : Type} {m : Model σ} {name : String} {params : List Value} {r : Relation}
  {landing : Value} {items : List Value} {j : Joinable}

/-- What a relation says of its stages. -/
def refining (r : Relation) : List Refinement :=
  .raws r.pipeline :: if r.select.isTruthy then [.select [r.select]] else []

/-- What a relation says, told to a joinable one thing after another. -/
def steps (landing : Value) (r : Relation) : List Joinable.Change :=
  [.option "localField" r.localField, .option "foreignField" r.foreignField, .option "as" landing,
    .option "single" r.single] ++ (refining r).map .refine

/-- The stages of a relation, read one after another. -/
def relationDraft (r : Relation) (items : List Value) : Draft :=
  items.map Stage.ofValue ++ if r.select.isTruthy then [Stage.select r.select] else []

/-- The options of a relation that leaves nothing out. -/
theorem relationOptions_eq (hlanding : r.landing = some landing)
    (hlocal : r.localField.isTruthy = true) (hforeign : r.foreignField.isTruthy = true)
    (hitems : r.pipeline = .list items) (name : String) :
    relationOptions name r = (relationDraft r items).outcome.map fun _ =>
      [(.text "from", .text r.model.collection), (.text "as", landing), (.text "single", r.single),
        (.text "localField", r.localField), (.text "foreignField", r.foreignField),
        (.text "pipeline", .list ((relationDraft r items).placed.map Stage.wire))] := by
  simp only [relationOptions, hlanding, hitems, Value.parts, Value.orElse_of_truthy hlocal,
    Value.orElse_of_truthy hforeign, Option.getD_some, relationDraft]
  show (items.mapM (fun v => Stage.wire <$> Stage.ofValue v) >>= _) = _
  rw [Draft.mapM_wire]
  cases houtcome : Draft.outcome (items.map Stage.ofValue) with
  | error e =>
    rw [(Draft.append_of_error houtcome _).1]
    rfl
  | ok =>
    obtain ⟨hend, hplaced⟩ := Draft.append_of_ok houtcome
      (if r.select.isTruthy then [Stage.select r.select] else [])
    rw [hend, hplaced]
    by_cases hselect : r.select.isTruthy = true
    · simp only [if_pos hselect]
      cases Stage.select r.select with
      | error e => rfl
      | ok s => simp [Except.map, bind, Except.bind]
    · simp [hselect, Except.map, bind, Except.bind]

/-- The joinable that was told what a relation says, with some stages. -/
def described (landing : Value) (r : Relation) (stages : List Stage) : Joinable where
  schema := r.model
  options := [(.text "from", .text r.model.collection), (.text "localField", r.localField),
    (.text "foreignField", r.foreignField), (.text "as", landing), (.text "single", r.single),
    (.text "let", .null)]
  stages := stages
  transform := none

/-- A joinable that is told what a relation says has its stages in the end, or fails as they do. -/
theorem build_steps (hitems : r.pipeline = .list items)
    (hselect : r.select.isTruthy = true → r.select.isList = true ∨ r.select.isDict = true) :
    Joinable.build r.model (steps landing r) = (relationDraft r items).outcome.map fun _ =>
      described landing r (relationDraft r items).placed := by
  have hplain : ∀ refinement ∈ refining r, refinement.isPlain = true := by
    unfold refining
    by_cases h : r.select.isTruthy = true <;> simp [h, Refinement.isPlain]
  have hdraft : (refining r).flatMap (Refinement.draft []) = relationDraft r items := by
    unfold refining relationDraft
    by_cases h : r.select.isTruthy = true
    · have hspread : Refinement.spread true [r.select] = r.select := by
        rcases hselect h with hlist | hdict
        · cases hr : r.select <;> simp_all [Value.isList, Refinement.spread]
        · cases hr : r.select <;> simp_all [Value.isDict, Refinement.spread]
      simp [h, Refinement.draft, hitems, Draft.after, Value.parts, hspread]
    · simp [h, Refinement.draft, hitems, Draft.after, Value.parts]
  have hrun : ((steps landing r).forM Joinable.apply).run (Joinable.fresh r.model) =
      ((relationDraft r items).outcome, described landing r (relationDraft r items).placed) := by
    rw [← hdraft]
    exact Joinable.run_refinements hplain (described landing r [])
  rw [Joinable.build, hrun]

/-- The options of a relation and those of the joinable that was told the same give one join. -/
theorem lookupDraft_described (hlanding : landing.isTruthy = true)
    (hlocal : r.localField.isTruthy = true) (stages : List Stage) :
    Refinement.lookupDraft (.dict (described landing r stages).lookup) =
      Refinement.lookupDraft (.dict
        [(.text "from", .text r.model.collection), (.text "as", landing),
          (.text "single", r.single), (.text "localField", r.localField),
          (.text "foreignField", r.foreignField),
          (.text "pipeline", .list (stages.map Stage.wire))]) := by
  generalize hj : described landing r stages = j
  have hoption : ∀ name, j.option name = (described landing r []).option name := by
    rw [← hj]
    exact fun _ => rfl
  have hlocalField : j.lookup.fieldOrNull "localField" = r.localField := by
    rw [Document.fieldOrNull, Joinable.field?_lookup_localField, hoption]
    exact Value.orElse_of_truthy hlocal _
  have hkept : ∀ name, name ≠ "as" → name ≠ "localField" → name ≠ "pipeline" →
      j.lookup.fieldOrNull name = (described landing r []).option name :=
    fun _ hplace hfield hrefined =>
      (Joinable.fieldOrNull_lookup_of_ne hplace hfield hrefined).trans (hoption _)
  have hforeign : j.lookup.fieldOrNull "foreignField" = r.foreignField :=
    hkept "foreignField" (by decide) (by decide) (by decide)
  have hlet : j.lookup.fieldOrNull "let" = .null :=
    hkept "let" (by decide) (by decide) (by decide)
  have hpipeline : Stage.entryIf Value.isTruthy "pipeline" (j.lookup.fieldOrNull "pipeline") =
      Stage.entryIf Value.isTruthy "pipeline" (.list (stages.map Stage.wire)) := by
    rw [Document.fieldOrNull, Joinable.field?_lookup_pipeline, ← hj]
    cases stages <;> rfl
  have hsource : j.options.field? "from" = some (.text r.model.collection) := by
    rw [← hj]
    rfl
  have hplace : j.landing = landing := by
    rw [← hj]
    exact Value.orElse_of_truthy hlanding _
  rw [Joinable.lookupDraft_lookup hsource, Refinement.lookupDraft_dict rfl rfl, hplace, hoption]
  simp only [Stage.ofJoin, hlocalField, hforeign, hlet, hpipeline]
  rfl

/-- A joining with nothing of its own reads the options of the joinable off. -/
theorem join_given (m : Model σ)
    (hfrom : j.options.field? "from" = some (.text j.schema.collection))
    (htransform : j.transform = none) :
    join m (.given j) default = onStages (Refinement.lookup (.dict j.lookup)).apply := by
  have hclone := Joinable.clone_eq hfrom
  obtain ⟨schema, options, stages, transform⟩ := j
  subst htransform
  show onStages (Refinement.addLookup
    (.dict (Joinable.clone ⟨schema, options, stages, none⟩).lookup)) = _
  rw [hclone]
  rfl

/-- A relation that leaves nothing out joins as the joinable does that is told the same, one thing
after another, and fails if this cannot be told. -/
theorem relate_eq_join (m : Model σ) {relation : List Value → Except Error Relation}
    (hrelation : m.relations.lookup name = some relation) (hr : relation params = .ok r)
    (hnamed : r.landing = some landing) (hlanding : landing.isTruthy = true)
    (hlocal : r.localField.isTruthy = true) (hforeign : r.foreignField.isTruthy = true)
    (hitems : r.pipeline = .list items)
    (hselect : r.select.isTruthy = true → r.select.isList = true ∨ r.select.isDict = true) :
    relate m name params = (do
      let j ← Action.ofExcept (Joinable.build r.model (steps landing r))
      join m (.given j) default) := by
  have hoptions : (do relationOptions name (← relation params)) = relationOptions name r := by
    rw [hr]
    rfl
  rw [relate, hrelation]
  dsimp only
  rw [hoptions, relationOptions_eq hnamed hlocal hforeign hitems, build_steps hitems hselect]
  cases (relationDraft r items).outcome with
  | error e => rfl
  | ok =>
    have hdraft := lookupDraft_described hlanding hlocal (relationDraft r items).placed
    have hjoinable := Refinement.follows_addLookup
      (.dict (described landing r (relationDraft r items).placed).lookup)
    rw [hdraft] at hjoinable
    have hlookup := (Refinement.follows_addLookup _).eq hjoinable
    have hgiven : join m (.given (described landing r (relationDraft r items).placed)) default =
        onStages (Refinement.addLookup
          (.dict (described landing r (relationDraft r items).placed).lookup)) :=
      join_given m rfl rfl
    simp only [Except.map, Action.ofExcept_ok_bind]
    rw [hgiven]
    exact congrArg onStages hlookup

/-- The last invoice of a customer with a status of its own choosing, without its lines. -/
def lastInvoice (status : Value) : Relation where
  model := { Schema.plain "Invoice" with collection := "invoices" }
  landing := some (.text "invoice")
  localField := .text "id"
  foreignField := .text "customerId"
  single := .bool true
  select := .list [.text "id", .text "total"]
  pipeline := .list [.single "$match" (.single "status" status)]

/-- Customers, with the last invoice of each. -/
def customers : Model Unit where
  toSchema := { Schema.plain "Customer" with collection := "customers" }
  casts := []
  defaults := []
  joinings := []
  relations := [("lastInvoice", fun params => .ok (lastInvoice (params.headD .null)))]
  rules := []

theorem relate_eq_join_invoice :
    let q := fresh "customers" (.model "Customer")
    let told := steps (.text "invoice") (lastInvoice (.text "open"))
    ∃ q', (relate customers "lastInvoice" [.text "open"]).run q = (.ok (), q') ∧
      (Action.ofExcept (Joinable.build (lastInvoice (.text "open")).model told) >>= fun j =>
        join customers (.given j) default).run q = (.ok (), q') ∧
      q'.stages.map Stage.wire =
        [.single "$lookup" (.ofEntries [("from", .text "invoices"), ("localField", .text "id"),
          ("foreignField", .text "customerId"), ("as", .text "invoice"),
          ("pipeline", .list [.single "$match" (.single "status" (.text "open")),
            .single "$project" (.ofEntries [("id", .int 1), ("total", .int 1)])])]),
        .single "$addFields" (.single "invoice" (.single "$first" (.text "$invoice")))] := by
  intro q told
  have heq : relate customers "lastInvoice" [.text "open"] = (do
      let j ← Action.ofExcept (Joinable.build (lastInvoice (.text "open")).model told)
      join customers (.given j) default) :=
    relate_eq_join customers rfl rfl rfl rfl rfl rfl rfl fun _ => .inl rfl
  have hrun : ((relate customers "lastInvoice" [.text "open"]).run q).1 = .ok () := rfl
  refine ⟨((relate customers "lastInvoice" [.text "open"]).run q).2, Prod.ext hrun rfl, ?_, rfl⟩
  rw [← heq]
  exact Prod.ext hrun rfl

end Query

end DocumentMapper
