import DocumentMapper.Call.Registry

/-!
# Calls of models

What a model itself does under the names that scripts use.
-/

namespace DocumentMapper.Model

open Parameters

variable {σ α : Type} (w : Workspace σ α) (m : Model σ)

/-- A function of a filter, which may be left out. -/
def ofFilter (f : Value → Action σ (Reply σ)) :
    Option (Parameters (Argument σ α) (Action σ (Reply σ))) :=
  some do return f (← valueD "filters" .null)

/-- A new rule for some columns of the model. -/
def rule (mode : Sync.Mode) : Option (Parameters (Argument σ α) (Action σ (Reply σ))) :=
  some do
    let columns ← (← required "columns").asColumnsIfGiven
    let member ← (← optional "embed_method" (.ofValue (.text "embedded_data"))).asColumn
    return do
      let r ← Action.ofExcept (Sync.Rule.ofColumns m.name columns member)
      return .object (.rule { r with mode })

/-- The call of a name on a model. -/
def named? : String → Option (Parameters (Argument σ α) (Action σ (Reply σ)))
  | "aggregate" | "query_builder" => some (return do
    return .object (.query (← Finder.query w.context m)))
  | "events" => some (return do return .object (.registry (m.registries.headD .base)))
  | "sync" => rule m .single
  | "sync_many" => rule m .many
  | "get_executor" => some (return do
    w.context.requireBound m.toSchema
    return .nothing)
  | "trigger_event" => some do
    let event ← value "event"
    let args ← otherValues
    return do
      m.registries.forM fun id => Registry.trigger w id event args
      return .nothing
  | "generate_next_id" => some (return Reply.value <$> Finder.nextId w.context m)
  | "get_last_id" => some (return Reply.value <$> Finder.lastId w.context m)
  | "create" => some do
    let d ← value "data"
    return Reply.record <$> Store.create w.cascade m d
  | "find" => some do
    let id ← value "id"
    return Reply.record? <$> Finder.find w.context m id
  | "find_by" => some do
    let c ← value "column"
    let v ← value "value"
    return Reply.record? <$> Finder.findBy w.context m c v
  | "first" => ofFilter fun f => Reply.record? <$> Finder.first w.context m f
  | "last" => ofFilter fun f => Reply.record? <$> Finder.last w.context m f
  | "latest" => ofFilter fun f => Reply.records <$> Finder.latest w.context m f
  | "list" => ofFilter fun f => Reply.records <$> Finder.list w.context m f
  | "count" => ofFilter fun f => (Reply.value ∘ Value.int) <$> Finder.count w.context m f
  | "exists" => ofFilter fun f => (Reply.value ∘ Value.bool) <$> Finder.exists w.context m f
  | "distinct" => some do
    let c ← column "column"
    let f ← valueD "filters" .null
    return (Reply.value ∘ Value.list) <$> Finder.distinct w.context m c f
  | "paginate" => some do
    let f ← valueD "filters" .null
    let page ← valueD "page" (.int 1)
    let limit ← valueD "limit" .null
    return (Reply.value ∘ Query.Page.toValue) <$> Finder.paginate w.context m f page limit
  | "chunk" => some do
    let limit ← value "limit"
    let visit ← (← required "callback").asVisit
    let f ← valueD "filters" .null
    return do
      Finder.chunk w.context m limit visit f
      return .nothing
  | "update" => some do
    let id ← value "id"
    let d ← value "data"
    return Reply.record? <$> Store.update w.context w.cascade m id d
  | "delete" => ofFilter fun f => (Reply.value ∘ Value.int) <$> Finder.delete w.context m f
  | "find_or_create" => some do
    let f ← value "filters"
    let d ← value "data"
    return Reply.record <$> Store.findOrCreate w.context w.cascade m f d
  | "update_or_create" => some do
    let f ← value "filters"
    let d ← value "data"
    return Reply.record <$> Store.updateOrCreate w.context w.cascade m f d
  | _ => none

end DocumentMapper.Model
