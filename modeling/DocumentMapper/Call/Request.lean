import DocumentMapper.Call.Arguments
import DocumentMapper.Database.Request
import DocumentMapper.Value.Number

/-!
# Requests by name

The operations on a collection under the names that scripts give them.
-/

namespace DocumentMapper.Request

open Parameters

/-- The entries of an argument that is a dictionary. -/
def entries (v : Value) : Except Error Document :=
  match v with
  | .dict d => .ok d
  | v => .error (.misuse (.mapping v.qualifiedKind))

/-- The parts of an argument that is a list. -/
def parts (v : Value) : Except Error (List Value) :=
  match v with
  | .list items => .ok items
  | v => .error (.misuse (.iteration v.qualifiedKind))

def text (v : Value) : Except Error String :=
  match v with
  | .text s => .ok s
  | v => .error (.misuse (.operands "." "str" v.qualifiedKind))

/-- An argument that null stands for the absence of. -/
def unlessNull {α : Type} (read : Value → Except Error α) (v : Value) : Except Error (Option α) :=
  if v.isNull then .ok none else some <$> read v

def filter : Parameters Value Document := do
  entries (← required "filter")

def upsert : Parameters Value Bool := do
  return (← optional "upsert" (.bool false)).isTruthy

/-- The operation of a name. -/
def operation? : String → Option (Parameters Value Operation)
  | "aggregate" => some do return .aggregate (← parts (← required "pipeline"))
  | "explain" => some do return .explain (← parts (← required "pipeline"))
  | "insert_one" => some do return .insertOne (← entries (← required "document"))
  | "insert_many" => some do
    return .insertMany (← (← parts (← required "documents")).mapM fun d => entries d)
  | "replace_one" => some do
    let f ← filter
    let d ← entries (← required "document")
    return .replaceOne f d (← upsert)
  | "update_one" => some do
    let f ← filter
    let update ← required "update"
    return .updateOne f update (← upsert)
  | "update_many" => some do
    let f ← filter
    return .updateMany f (← required "update")
  | "find_one_and_update" => some do
    let f ← filter
    let update ← required "update"
    return .findOneAndUpdate f update (← upsert)
  | "delete_one" => some do return .deleteOne (← filter)
  | "delete_many" => some do return .deleteMany (← filter)
  | "find_one" => some do return .findOne (← filter)
  | "find_many" => some do
    let f ← filter
    let sort ← unlessNull entries (← optional "sort" .null)
    let limit ← unlessNull Value.toInteger (← optional "limit" .null)
    return .findMany f sort limit
  | "count" => some do return .count (← unlessNull entries (← optional "filter" .null))
  | "distinct" => some do
    let key ← text (← required "key")
    return .distinct key (← unlessNull entries (← optional "filter" .null))
  | _ => none

/-- The request of a name: a collection first, then what the operation takes. -/
def named? (name : String) : Option (Parameters Value Request) :=
  (operation? name).map fun operation => do
    let collection ← text (← required "collection")
    return ⟨collection, ← operation⟩

end DocumentMapper.Request
