import DocumentMapper.Model.Schema
import DocumentMapper.Pipeline.Refinement
import DocumentMapper.Text.Singular

/-!
# Joinables

A joinable describes how the records of another model are joined to a query: the options of the
join, stages that refine the joined records, and what becomes of each of them once it is fetched.
Reading the options off takes the stages with it, so that they are used once.
-/

namespace DocumentMapper

/-- What is made of a fetched value. -/
abbrev Transform := Value → Except Error Value

structure Joinable where
  /-- The model whose records are joined. -/
  schema : Schema
  options : Document
  stages : List Stage
  transform : Option Transform
  deriving Inhabited

namespace Joinable

def fresh (s : Schema) : Joinable where
  schema := s
  options := [(.text "from", .text s.collection), (.text "localField", .text ""),
    (.text "foreignField", .text "id"), (.text "as", .text ""), (.text "single", .bool false),
    (.text "let", .null)]
  stages := []
  transform := none

def option (j : Joinable) (name : String) : Value :=
  j.options.fieldOrNull name

def putOption (j : Joinable) (name : String) (v : Value) : Joinable :=
  { j with options := j.options.putField name v }

/-- The joinable with other options; those without a collection get that of the model. -/
def withOptions (j : Joinable) (options : Document) : Joinable :=
  let given := (options.fieldOrNull "from").isTruthy
  { j with
    options := if given then options else options.putField "from" (.text j.schema.collection) }

/-- The name of the model, in the singular for a join of one record. -/
def defaultName (j : Joinable) : Value :=
  let collection := j.schema.collection
  if (j.option "single").isTruthy then
    j.schema.singularName.orElse (.text (Text.singular collection))
  else .text collection

/-- The field in which the joined records land. -/
def landing (j : Joinable) : Value :=
  (j.option "as").orElse j.defaultName

/-- The options with an entry in the place of one that says nothing. -/
def fill (options : Document) (name : String) (v : Value) : Document :=
  if (options.fieldOrNull name).isTruthy then options else options.putField name v

/-- The options of the join with everything that was left out. -/
def lookup (j : Joinable) : Document :=
  let name := j.defaultName
  let filled := fill (fill j.options "as" name) "localField" (.text (name.display ++ ".id"))
  if j.stages.isEmpty then filled
  else filled.putField "pipeline" (.list (j.stages.map Stage.wire))

/-- Reads the options off. -/
def take : Action Joinable Document :=
  modifyGet fun j => (j.lookup, { j with stages := [] })

/-- A joinable of its own with the same content. -/
def clone (j : Joinable) : Joinable :=
  j.withOptions j.options

/-- Refines the joined records. -/
def refine {α : Type} (act : Action (List Stage) α) : Action Joinable α :=
  act.within stages fun stages j => { j with stages }

/-- One change to a joinable. -/
inductive Change where
  | option (name : String) (v : Value)
  | options (d : Document)
  | transform (t : Option Transform)
  | refine (r : Refinement)

def apply : Change → Action Joinable Unit
  | .option name v => modify (·.putOption name v)
  | .options d => modify (·.withOptions d)
  | .transform t => modify ({ · with transform := t })
  | .refine r => Joinable.refine r.apply

/-- A joinable after some changes. -/
def build (s : Schema) (changes : List Change) : Except Error Joinable :=
  let (outcome, j) := (changes.forM apply).run (fresh s)
  outcome.map fun _ => j

/-- The text that stands for a joinable. -/
def text (j : Joinable) : String :=
  "<Joinable " ++ j.schema.name ++ " as=" ++ j.landing.display ++ ">"

end Joinable

end DocumentMapper
