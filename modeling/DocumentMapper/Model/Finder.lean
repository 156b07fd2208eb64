import DocumentMapper.Model.Context
import DocumentMapper.Model.Counter
import DocumentMapper.Query.Execution

/-!
# Finding records

A model finds its records by filters. Before a search the filter is prepared: identifiers of the
database may be given as texts, records marked as deleted are left out unless the filter asks for
them, moments go on a clock of UTC, and listeners may change the filter as they like.
-/

namespace DocumentMapper

namespace Query

/-- Runs a query from the start. -/
def launch {σ α : Type} (q : Query) (act : Run σ α) : Action σ α := do
  let (outcome, _) ← Action.alongside q act
  Action.ofExcept outcome

end Query

namespace Finder

variable {σ : Type} (ctx : Context σ) (m : Model σ)

/-- The entries of a filter; what counts as absent has none. -/
def entries (filter : Value) : Except Error Document :=
  if filter.isTruthy then filter.toDocument else .ok []

/-- A filter that leaves out the records marked as deleted, unless it says something of the mark
itself. -/
def hideDeleted (s : Schema) (filter : Document) : Document :=
  if filter.has s.deletedAt then filter else filter.put s.deletedAt .null

/-- A filter as it is sent, but for what listeners do to it. -/
def normalized (s : Schema) (filter : Document) : Except Error Document := do
  let withDeleted := (filter.fieldOrNull "with_deleted").isTruthy
  let filter := Record.identified (filter.eraseField "with_deleted")
  let filter := if s.deletion = .soft ∧ !withDeleted then hideDeleted s filter else filter
  .ok (← (Value.dict filter).normalizeDates).entries

/-- A filter as it is sent. -/
def prepare (filter : Value) : Action σ Document := do
  let filter ← Action.ofExcept (do normalized m.toSchema (← entries filter))
  let (outcome, filter) ← Action.alongside filter
    (ctx.tell m.registries .fetching fun l => l.onSearch m.name)
  Action.ofExcept outcome
  return filter

/-- Makes a request about the records that a filter selects. -/
def search (filter : Value) (operation : Document → Operation) {α : Type}
    (use : (f : Document) → (operation f).Answer → α) : Action σ α := do
  ctx.requireBound m.toSchema
  let f ← prepare ctx m filter
  return use f (← ctx.request m.collection (operation f))

/-- The record of a document that is there and not empty. -/
def record? : Option Document → Option Record
  | some (e :: d) => some (Record.ofData m.name (e :: d))
  | _ => none

def records (ds : List Document) : List Record :=
  ds.map (Record.ofData m.name)

def first (filter : Value) : Action σ (Option Record) :=
  search ctx m filter .findOne fun _ d => record? m d

/-- A filter of one entry. -/
def on (column v : Value) : Value :=
  .dict [(column, v)]

/-- The identity that a value stands for: texts of digits are numbers. -/
def identity (v : Value) : Except Error Value :=
  match v with
  | .text s => if Text.isDigits s then do .ok (.int (← Path.position s)) else .ok v
  | v => .ok v

def findBy (column v : Value) : Action σ (Option Record) :=
  first ctx m (on column v)

def find (id : Value) : Action σ (Option Record) := do
  findBy ctx m m.primaryId (← Action.ofExcept (identity id))

def last (filter : Value) : Action σ (Option Record) :=
  search ctx m filter (.findMany · (some [(m.primaryId, .int (-1))]) (some 1))
    fun _ ds => (records m ds).head?

/-- The records, the latest first. -/
def latest (filter : Value) : Action σ (List Record) :=
  search ctx m filter (.findMany · (some [(m.createdAt, .int (-1))]) none)
    fun _ ds => records m ds

def list (filter : Value) : Action σ (List Record) :=
  search ctx m filter (.findMany · none none) fun _ ds => records m ds

def count (filter : Value) : Action σ Int :=
  search ctx m filter (fun f => .count (some f)) fun _ n => n

def «exists» (filter : Value) : Action σ Bool :=
  Option.isSome <$> first ctx m filter

/-- The different values of a column. -/
def distinct (column : String) (filter : Value) : Action σ (List Value) :=
  search ctx m filter (fun f => .distinct column (some f)) fun _ vs => vs

/-- A query for all records of the model. -/
def query : Action σ Query := do
  ctx.requireBound m.toSchema
  return .fresh m.collection (.model m.name)

/-- Runs a query for the records that a filter selects. -/
def filtered {α : Type} (filter : Value) (act : Query.Run σ α) : Action σ α := do
  let q ← query ctx m
  let f ← prepare ctx m filter
  q.launch do
    if !f.isEmpty then Query.refine (.clause [.dict f])
    act

def paginate (filter page limit : Value) : Action σ Query.Page :=
  filtered ctx m filter (Query.paginate ctx page limit none)

/-- Visits all pages of records that a filter selects. -/
def chunk (limit : Value) (visit : Query.Visit σ) (filter : Value) : Action σ Unit :=
  filtered ctx m filter (Query.chunk ctx limit visit none)

/-- Deletes what a filter selects in the collection itself: an identifier or a number names one
record, anything else is a filter. Nobody is told and no copies are changed. -/
def delete (filter : Value) : Action σ Int := do
  ctx.requireBound m.toSchema
  match filter with
  | .objectId id => ctx.request m.collection (.deleteOne [(.text "_id", .objectId id)])
  | .int _ | .bool _ | .text _ =>
    ctx.request m.collection (.deleteOne [(m.primaryId, filter)])
  | _ =>
    let f ← prepare ctx m filter
    ctx.request m.collection (.deleteMany f)

/-- The next number of the model's collection. -/
def nextId : Action σ Value := do
  ctx.requireBound m.toSchema
  (Counter.next m.collection m.idStep m.firstId).run ctx.execute

/-- The last number given out for the model's collection. -/
def lastId : Action σ Value := do
  ctx.requireBound m.toSchema
  (Counter.last m.collection).run ctx.execute

end Finder

end DocumentMapper
