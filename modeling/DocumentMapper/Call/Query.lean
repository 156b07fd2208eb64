import DocumentMapper.Call.Object
import DocumentMapper.Call.Refinement
import DocumentMapper.Query.Joining

/-!
# Calls of queries

What a query does under the names that scripts use. The joins are there for queries of models only,
and these delete their records one by one.
-/

namespace DocumentMapper.Query

open Parameters

variable {σ α : Type} (w : Workspace σ α)

/-- A call that gives a value. -/
def giving (act : Run σ Value) : Action (Query × σ) (Reply σ) :=
  Reply.value <$> act

def givingInt (act : Run σ Int) : Action (Query × σ) (Reply σ) :=
  giving (Value.int <$> act)

/-- A call that changes the query and gives it back. -/
def changing (act : Action Query Unit) : Action (Query × σ) (Reply σ) := do
  Action.first act
  return .itself

def mapping : Parameters (Argument σ α) (Option Transform) := do
  (← nullable "map_data").asTransform?

/-- A function of one column. -/
def ofColumn (f : Value → Run σ Value) : Call? σ α Query :=
  some do return giving (f (← value "column"))

/-- What a join adds, with or without a name of its own. -/
def extras : Parameters (Argument σ α) JoinExtras := do
  let filter ← valueD "where" .null
  let select ← valueD "select" .null
  let pipeline ← valueD "pipeline" .null
  return ⟨filter, select, pipeline, ← valueD "as_" .null⟩

/-- The calls that queries of models have. -/
def modelCall? (m : Model σ) : String → Call? σ α Query
  | "joining" => some do
    let ref ← (← required "joinable").asJoin
    return changing (join m ref (← extras))
  | "count_joining" => some do
    let ref ← (← required "joinable").asJoin
    return changing (joinCount m ref (← extras))
  | "with_" => some do
    let name ← value "alias"
    return changing (relate m name.display (← otherValues))
  | "delete" => some (return givingInt (Store.deleteMatching w.context w.cascade))
  | _ => none

/-- The calls that all queries have, besides refinements. -/
def call? : String → Call? σ α Query
  | "parse" => some (return giving do return .list (← current).wire)
  | "get_pipelines" => some (return giving do
    return .list ((← current).stages.map Stage.toValue))
  | "clone" => some (return do return .object (.query (← current)))
  | "execute" => some (return giving do
    return .list ((← execute w.context).map .dict))
  | "get" => some do
    let map ← mapping
    return giving (Value.list <$> fetch w.context map)
  | "first" => some do
    let map ← mapping
    return giving (first w.context map)
  | "last" => some do
    let filters ← valueD "filters" .null
    return giving (last w.context filters)
  | "count" => some (return giving (count w.context))
  | "paginate" => some do
    let page ← valueD "page" (.int 1)
    let limit ← valueD "limit" .null
    let map ← mapping
    return giving (Page.toValue <$> paginate w.context page limit map)
  | "chunk" => some do
    let limit ← value "limit"
    let visit ← (← required "callback").asVisit
    let map ← mapping
    return giving do
      chunk w.context limit visit map
      return .null
  | "update" => some do return givingInt (update w.context (← value "data"))
  | "unset" => some do return givingInt (unset w.context (← otherValues))
  | "delete" => some (return givingInt (deleteMany w.context))
  | "explain" => some (return giving (Value.dict <$> explain w.context))
  | "pluck" => ofColumn fun c => Value.list <$> pluck w.context c
  | "distinct" | "unique" => ofColumn (distinct w.context)
  | "distinct_heavy" => ofColumn (distinctPresent w.context)
  | "values" => ofColumn (values w.context)
  | "avg" | "average" => ofColumn (average w.context)
  | "sum" => ofColumn (sum w.context)
  | "min" => ofColumn (least w.context)
  | "max" => ofColumn (greatest w.context)
  | _ => none

def refinementCall? (name : String) : Call? σ α Query :=
  (Refinement.named? name).map fun parameters => do
    let r ← ofValues parameters
    return changing (onStages r.apply)

/-- The call of a name on a query. -/
def named? (q : Query) (name : String) : Call? σ α Query :=
  let own := match q.source with
    | .model m => modelCall? w (w.context.model m) name
    | _ => none
  own.or ((call? w name).or (refinementCall? name))

end DocumentMapper.Query
