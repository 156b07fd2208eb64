import DocumentMapper.Model.Context

/-!
# Joins in the query of a model

A query of a model can be refined like any other, and it can join other models by what its model
declares: a joinable by name or a joinable at hand, the number of the records that it joins, or a
relation. A joinable is never used up: each join works on one of its own.
-/

namespace DocumentMapper

/-- A joinable by name or at hand. -/
inductive JoinRef where
  | named (name : String)
  | given (j : Joinable)

/-- What a join adds to its joinable; what counts as absent adds nothing. -/
structure JoinExtras where
  filter : Value
  select : Value
  pipeline : Value
  landing : Value
  deriving Inhabited

namespace Query

variable {σ : Type}

/-- A joinable of the query's own. -/
def resolve (m : Model σ) : JoinRef → Except Error Joinable
  | .given j => .ok j.clone
  | .named name =>
    match m.joinings.lookup name with
    | some j => Joinable.clone <$> j
    | none => .error (.relationNotFound name m.name)

/-- An action for a value that counts as present. -/
def ifGiven {τ : Type} (v : Value) (act : Action τ Unit) : Action τ Unit :=
  if v.isTruthy then act else return

/-- The options of a join with its extras. -/
def joinOptions (extras : JoinExtras) : Action Joinable Document := do
  ifGiven extras.filter (Joinable.apply (.refine (.clause [extras.filter])))
  ifGiven extras.select (Joinable.apply (.refine (.select [extras.select])))
  ifGiven extras.landing (Joinable.apply (.option "as" extras.landing))
  ifGiven extras.pipeline (Joinable.apply (.refine (.raws extras.pipeline)))
  Joinable.take

/-- Joins another model, and sets what becomes of its records if the joinable says so. -/
def join (m : Model σ) (ref : JoinRef) (extras : JoinExtras) : Action Query Unit := do
  let j ← Action.ofExcept (resolve m ref)
  let options ← Action.ofExcept ((joinOptions extras).run j).1
  if let some t := j.transform then
    let landing ← Action.ofExcept (options.fieldOrNull "as").asKey
    modify fun q => { q with transforms := putTransform landing t q.transforms }
  onStages (Refinement.lookup (.dict options)).apply

/-- Joins another model and adds the number of the records joined. -/
def joinCount (m : Model σ) (ref : JoinRef) (extras : JoinExtras) : Action Query Unit := do
  let j ← Action.ofExcept (resolve m ref)
  let landing := j.landing
  join m (.given j) { extras with landing := .null }
  let field := extras.landing.orElse (.text (landing.display ++ "Count"))
  let size ← Action.ofExcept (Column.reference landing)
  onStages (Refinement.addField field (.single "$size" size)).apply

/-- The options of a relation. -/
def relationOptions (name : String) (r : Relation) : Except Error Document := do
  let landing := r.landing.getD (.text name)
  let stages ← (← r.pipeline.parts).mapM fun v => Stage.wire <$> Stage.ofValue v
  let selected ← if r.select.isTruthy then do .ok [(← Stage.select r.select).wire] else .ok []
  .ok [(.text "from", .text r.model.collection), (.text "as", landing), (.text "single", r.single),
    (.text "localField", r.localField.orElse (.text "id")),
    (.text "foreignField", r.foreignField.orElse (.text (landing.display ++ ".id"))),
    (.text "pipeline", .list (stages ++ selected))]

/-- Joins by a relation of the model. -/
def relate (m : Model σ) (name : String) (params : List Value) : Action Query Unit := do
  match m.relations.lookup name with
  | none => throw (.relationNotFound name m.name)
  | some relation =>
    let options ← Action.ofExcept (do relationOptions name (← relation params))
    onStages (Refinement.lookup (.dict options)).apply

end Query

end DocumentMapper
