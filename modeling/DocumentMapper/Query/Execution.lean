import DocumentMapper.Model.Context

/-!
# Running a query

Running a query tells the listeners of its source that documents are about to be fetched and then
sends its pipeline, as the listeners left it. What a query of a model fetches becomes records of
the model, and joined records become what their joinables say, unless the caller asks for
something else. Helpers that need more stages put them into the query and leave them there; only
a page takes its window out again.
-/

namespace DocumentMapper

namespace Query

variable {σ : Type} (ctx : Context σ)

/-- A query that is being run, with the state it works on. -/
abbrev Run (σ α : Type) := Action (Query × σ) α

def current : Run σ Query := do
  return (← get).1

def refine (r : Refinement) : Run σ Unit :=
  Action.first (onStages r.apply)

def outside {α : Type} (act : Action σ α) : Run σ α :=
  Action.second act

def check {α : Type} (outcome : Except Error α) : Run σ α :=
  Action.ofExcept outcome

/-- Fails for a query that has no executor. -/
def requireExecutor : Run σ Unit := do
  let q ← current
  match q.source with
  | .detached => throw (.detachedQuery q.collection)
  | _ => return

/-- The registries that hear of the query. -/
def audience (q : Query) : List RegistryId :=
  match q.source with
  | .detached | .attached none => []
  | .attached (some id) => [id]
  | .model name => (ctx.model name).registries

def announce (event : Event) : Run σ Unit := do
  ctx.tell (audience ctx (← current)) event fun l => l.onQuery

/-- The documents that the pipeline gives. -/
def execute : Run σ (List Document) := do
  requireExecutor
  announce ctx .fetching
  let q ← current
  outside (ctx.request q.collection (.aggregate q.wire))

/-- What becomes of a document when the caller does not say. -/
def standardMap (source : Source) (d : Document) : Except Error Value :=
  match source with
  | .model name => Record.toValue <$> Record.build name (.dict d)
  | _ => .ok (.dict d)

/-- What the query gives for the documents that were fetched. -/
def results (q : Query) (map : Option Transform) (ds : List Document) :
    Except Error (List Value) := do
  let ds ← ds.mapM fun d => transformed d q.transforms
  ds.mapM fun d =>
    match map with
    | some f => f (.dict d)
    | none => standardMap q.source d

/-- Fetches the documents and makes something of each. -/
def fetch (map : Option Transform) : Run σ (List Value) := do
  let ds ← execute ctx
  check (results (← current) map ds)

def limitOne : Refinement :=
  .limit (.int 1)

def first (map : Option Transform) : Run σ Value := do
  refine limitOne
  return (← fetch ctx map).headD .null

/-- The document with the highest `id`. -/
def last (filters : Value) : Run σ Value := do
  if filters.isTruthy then refine (.clause [filters])
  refine (.sort (.text "id") (.text "desc"))
  refine limitOne
  return (← fetch ctx none).headD .null

/-- One group over all documents. -/
def groupAll (name : String) (expression : Value) : Refinement :=
  .group .null (.single name expression)

/-- The number of documents, as the group over all of them gives it. -/
def count : Run σ Value := do
  refine (groupAll "total" (← check (Expression.count .null)))
  let ds ← execute ctx
  check (Path.getD (.list (ds.map .dict)) ["0", "total"] (.int 0))

/-! ## Pages -/

/-- One page of documents with its place among all of them. -/
structure Page where
  documents : List Value
  limit : Value
  page : Value
  total : Value
  pages : Int

namespace Page

def info (p : Page) : Value :=
  .ofEntries [("limit", p.limit), ("page", p.page), ("result", .int p.documents.length),
    ("total", p.total), ("pages", .int p.pages)]

def toValue (p : Page) : Value :=
  .ofEntries [("documents", .list p.documents), ("paginationInfo", p.info)]

end Page

/-- The number of documents on a page when the caller does not say: what the model says, what the
executor says, or fifteen. -/
def pageLimit (q : Query) (limit : Value) : Value :=
  let own := match q.source with
    | .model name => if limit.isNull then (ctx.model name).perPage else limit
    | _ => limit
  if !own.isNull then own
  else
    match q.source with
    | .detached => .int 15
    | _ => ctx.perPage.orElse (.int 15)

/-- Whether a number is one at least. -/
def atLeastOne (v : Value) : Except Error Bool := do
  .ok (!(← v.less (.int 1)))

/-- Fails unless page and limit are one at least. -/
def requireBounds (page limit : Value) : Except Error Unit := do
  let fits ← if ← atLeastOne page then atLeastOne limit else .ok false
  if fits then .ok () else .error (.pageBounds page limit)

/-- Restores the stages that the query had before. -/
def restore (stages : List Stage) : Run σ Unit :=
  modify fun (q, s) => ({ q with stages }, s)

/-- One page. The query keeps the group that counts the documents. -/
def paginate (page limit : Value) (map : Option Transform) : Run σ Page := do
  let limit := pageLimit ctx (← current) limit
  check (requireBounds page limit)
  let stages := (← current).stages
  let start ← check do (← page.sub (.int 1)).mul limit
  refine (.skip start)
  refine (.limit limit)
  let documents ← fetch ctx map
  restore stages
  let total ← count ctx
  let pages ← check (if limit.isTruthy then total.ceilingQuotient limit else .ok 0)
  return ⟨documents, limit, page, total, pages⟩

/-- Runs on a query of its own with the same content. -/
def onClone {α : Type} (act : Run σ α) : Run σ α where
  run t :=
    let (outcome, _, s) := act.run t
    (outcome, t.1, s)

/-- What a caller does with a page; false ends the walk. -/
abbrev Visit (σ : Type) := List Value → Value → Action σ Value

/-- Visits pages from one on, as many as are left. -/
def walk (limit : Value) (visit : Visit σ) (map : Option Transform) : Nat → Int → Run σ Unit
  | 0, _ => return
  | left + 1, page => do
    let p ← onClone (paginate ctx (.int page) limit map)
    match ← outside (visit p.documents p.info) with
    | .bool false => return
    | _ => walk limit visit map left (page + 1)

/-- Visits every page of a size. -/
def chunk (limit : Value) (visit : Visit σ) (map : Option Transform) : Run σ Unit := do
  if !(← check (atLeastOne limit)) then throw (.chunkBound limit)
  let total ← onClone (count ctx)
  let pages ← check (total.ceilingQuotient limit)
  walk ctx limit visit map pages.toNat 1

/-! ## Bulk writes -/

/-- The entries of a filter written over those of another. -/
def conjoin (filter : Document) (v : Value) : Except Error Document := do
  .ok (filter.update (← v.toDocument))

/-- The filters of a pipeline in one, and all other stages. -/
def split (filter : Document) : List Stage → Except Error (Document × List Value)
  | [] => .ok (filter, [])
  | s :: rest =>
    if s.name == "match" then do split (← conjoin filter s.payload) rest
    else do
      let (filter, others) ← split filter rest
      .ok (filter, s.wire :: others)

/-- The logger of queries. -/
def logger : String := "mongolayer.query.Aggregate"

/-- Sends an update of every matching document; a failure is logged before it goes on. -/
def updateMany (filter : Document) (pipeline : List Value) (task : String) : Run σ Int := do
  let q ← current
  tryCatch
    (do
      announce ctx .updating
      outside (ctx.request q.collection (.updateMany filter (.list pipeline))))
    fun e => do
      outside (ctx.report logger .error
        ("Failed to " ++ task ++ q.collection ++ ": " ++ e.message)
        (.ofEntries [("filter", .dict filter), ("pipeline", .list pipeline)]))
      throw e

/-- Sets columns of every matching document and gives the number of documents changed. -/
def update (d : Value) : Run σ Int := do
  requireExecutor
  let (filter, stages) ← check (split [] (← current).stages)
  let d ← check d.normalizeDates
  updateMany ctx filter (stages ++ [.single "$set" d]) "update "

/-- Takes columns out of every matching document and gives the number of documents changed. -/
def unset (columns : List Value) : Run σ Int := do
  requireExecutor
  let (filter, stages) ← check (split [] (← current).stages)
  let columns := Value.list columns
  updateMany ctx filter (stages ++ [.single "$unset" columns])
    ("unset " ++ columns.literal ++ " on ")

def explain : Run σ Document := do
  requireExecutor
  let q ← current
  outside (ctx.request q.collection (.explain q.wire))

/-! ## Columns -/

/-- Every document's value of a column. -/
def pluck (column : Value) : Run σ (List Value) := do
  refine (.select [.list [column]])
  fetch ctx (some fun d => do Path.getD d (← Path.ofValue column) .null)

/-- Deletes every matching document and gives their number. -/
def deleteMany : Run σ Int := do
  requireExecutor
  refine (.select [.list [.text "_id"]])
  let ids ← pluck ctx (.text "_id")
  announce ctx .deleting
  let q ← current
  outside (ctx.request q.collection
    (.deleteMany [(.text "_id", .single "$in" (.list ids))]))

/-- The first document, as it was fetched. -/
def firstDocument : Run σ (Option Document) := do
  refine limitOne
  return (← execute ctx).head?

/-- The array that a group over all documents gathers. -/
def gathered (expression : Except Error Value) : Run σ Value := do
  refine (groupAll "values" (← check expression))
  refine (.select [.list [.text "values"]])
  match ← firstDocument ctx with
  | none | some [] => return .list []
  | some d => check ((Value.dict d).field "values")

/-- The different values of a column. -/
def distinct (column : Value) : Run σ Value :=
  gathered ctx (Expression.addToSet column)

/-- The different values of a column, null left out. -/
def distinctPresent (column : Value) : Run σ Value := do
  refine (.clause [column, .text "!=", .null])
  distinct ctx column

/-- All values of a column. -/
def values (column : Value) : Run σ Value :=
  gathered ctx (Expression.push column)

/-- What an accumulator over all documents gives, zero if it gives nothing. -/
def accumulate (name : String) (expression : Except Error Value) : Run σ Value := do
  refine (groupAll name (← check expression))
  match ← firstDocument ctx with
  | none => return .int 0
  | some d =>
    let v := d.fieldOrNull name
    return if v.isNull then .int 0 else v

def average (column : Value) : Run σ Value := accumulate ctx "avg" (Expression.avg column)

def sum (column : Value) : Run σ Value := accumulate ctx "sum" (Expression.sum column .null)

def least (column : Value) : Run σ Value := accumulate ctx "min" (Expression.min column)

def greatest (column : Value) : Run σ Value := accumulate ctx "max" (Expression.max column)

end Query

end DocumentMapper
