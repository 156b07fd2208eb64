import DocumentMapper.Database.Request
import DocumentMapper.Log.Basic
import DocumentMapper.Sync.Rule

/-!
# Models and what they work with

A model is a schema together with what its records do: how columns are cast, what a new record
starts with, which other models can be joined, and which rules keep embedded copies up to date.
Everything outside of the records is reached through a context: the database, the clock, the log,
the models and their listeners. All of it works on a state that is left open.
-/

namespace DocumentMapper

/-- How a column is cast. -/
inductive CastRule (σ : Type) where
  | named (type : String)
  /-- The record of a model that the value names, embedded. -/
  | model (name : String)
  | custom (cast : Value → String → Record → Action σ Value)

inductive Default where
  | value (v : Value)
  | computed (f : Record → Except Error Value)

/-- A join that a model describes in one piece. -/
structure Relation where
  model : Schema
  /-- The field in which the joined records land. -/
  landing : Option Value
  localField : Value
  foreignField : Value
  single : Value
  select : Value
  pipeline : Value
  deriving Inhabited

structure Model (σ : Type) extends Schema where
  casts : List (String × CastRule σ)
  defaults : List (String × Default)
  /-- Joinables by name, each the one that was declared or one made for the occasion. -/
  joinings : List (String × Except Error Joinable)
  /-- Relations by name, which may take parameters. -/
  relations : List (String × (List Value → Except Error Relation))
  rules : List (Sync.Rule σ)
  deriving Inhabited

/-- A listener may change what it is told about. It hears of records, of filters before a search,
of queries before they run, and of whatever else a registry is told. -/
structure Listener (σ : Type) where
  onRecord : Option Record → Action (Record × σ) Unit
  onSearch : String → Action (Document × σ) Unit
  onQuery : Action (Query × σ) Unit
  onValues : List Value → Action σ Unit

structure Context (σ : Type) where
  model : String → Model σ
  /-- Whether the models have an executor. -/
  bound : Bool
  perPage : Value
  execute : (r : Request) → Action σ r.Answer
  now : Action σ Calendar.Moment
  log : Log.Record → Action σ Unit
  listeners : RegistryId → Event → Action σ (List (Listener σ))

/-- The registries that hear of the records of a model, its own first. -/
def Schema.registries (s : Schema) : List RegistryId :=
  if s.isRoot then [.base] else [.model s.name, .base]

namespace Context

variable {σ : Type} (ctx : Context σ)

/-- Fails for a model without an executor. -/
def requireBound (s : Schema) : Action σ Unit :=
  if ctx.bound then return else throw (.unboundModel s.name)

def request (collection : String) (operation : Operation) : Action σ operation.Answer :=
  ctx.execute ⟨collection, operation⟩

/-- Logs a message with a context. -/
def report (logger : String) (level : Log.Level) (message : String) (context : Value) :
    Action σ Unit := do
  ctx.log ⟨logger, level, ← Action.ofExcept (Log.withContext message context)⟩

/-- Tells every listener of an event in turn, registry after registry. -/
def tell {α : Type} (registries : List RegistryId) (event : Event)
    (call : Listener σ → Action (α × σ) Unit) : Action (α × σ) Unit :=
  registries.forM fun id => do
    let ls ← Action.second (ctx.listeners id event)
    ls.forM call

end Context

end DocumentMapper
