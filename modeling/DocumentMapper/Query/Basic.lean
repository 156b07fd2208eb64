import DocumentMapper.Event
import DocumentMapper.Joinable

/-!
# Queries

A query is a pipeline on a collection. It comes from somewhere: a query without an executor can be
built but not run, one with an executor may tell a registry of events what it does, and one of a
model tells the model's registries and gives records of the model. A query of a model also keeps,
for each field that holds joined records, what becomes of these.
-/

namespace DocumentMapper

inductive Source where
  | detached
  | attached (events : Option RegistryId)
  | model (name : String)
  deriving DecidableEq, Repr, Inhabited

structure Query where
  collection : String
  source : Source
  stages : List Stage
  transforms : List (Value × Transform)
  deriving Inhabited

namespace Query

/-- A query without stages. -/
def fresh (collection : String) (source : Source) : Query :=
  ⟨collection, source, [], []⟩

/-- The stages in the form in which the database takes them. -/
def wire (q : Query) : List Value :=
  q.stages.map Stage.wire

/-- An action on the stages of a query. -/
def onStages {α : Type} (act : Action (List Stage) α) : Action Query α :=
  act.within stages fun stages q => { q with stages }

/-- Sets what becomes of the records in a field. -/
def putTransform (landing : Value) (t : Transform) :
    List (Value × Transform) → List (Value × Transform)
  | [] => [(landing, t)]
  | (a, old) :: rest =>
    if a.same landing then (a, t) :: rest else (a, old) :: putTransform landing t rest

/-- A document with a transform applied to the records in a field. -/
def transformField (d : Document) (landing : Value) (t : Transform) : Except Error Document :=
  match d.get? landing with
  | some (.list items) => do .ok (Document.put landing (.list (← items.mapM t)) d)
  | some .null | none => .ok d
  | some v => do .ok (Document.put landing (← t v) d)

/-- A document with every transform applied. -/
def transformed (d : Document) (transforms : List (Value × Transform)) : Except Error Document :=
  transforms.foldlM (fun d (landing, t) => transformField d landing t) d

/-- The kind of a query by its name. -/
def kind (q : Query) : String :=
  match q.source with
  | .model _ => "ModelAggregate"
  | _ => "Aggregate"

/-- The text that stands for a query. -/
def text (q : Query) : String :=
  "<" ++ q.kind ++ " " ++ q.collection ++ s!" stages={q.stages.length}>"

end Query

end DocumentMapper
