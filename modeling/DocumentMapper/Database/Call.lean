import DocumentMapper.Database.Request
import DocumentMapper.Value.Display

/-!
# Calls to the server

A request becomes calls of a client on its handles. Inside a transaction every call carries the
session that the transaction runs in. Results of a pipeline or a search are read to the end from
a cursor. Inserting no documents needs no call.
-/

namespace DocumentMapper.Database

inductive Handle where
  | admin
  | database (name : Value)
  | collection (base : Value) (name : String)

/-- The name of a handle, a collection below its database. -/
def Handle.name : Handle → String
  | admin => "admin"
  | database name => name.display
  | collection base name => base.display ++ "." ++ name

inductive Call where
  | makeClient (uri : Value) (options : Document)
  | method (handle : Handle) (name : String) (args : List Value) (options : Document)
      (session : Option Nat)
  /-- Reads a cursor to the end. -/
  | readAll
  | startSession (session : Nat)
  | startTransaction (session : Nat)
  | commit (session : Nat)
  | abort (session : Nat)
  | endSession (session : Nat)
  | dropDatabase (name : Value)
  | close

/-- The session that a call runs in, for the calls that can run in one. -/
def Call.session? : Call → Option (Option Nat)
  | method _ _ _ _ session => some session
  | _ => none

/-- The order of a search as the client takes it: pairs of a key and a direction. -/
def sortPairs (sort : Document) : Value :=
  .list (sort.map fun (key, direction) => .tuple [key, direction])

/-- The options of a search; a limit of zero and an empty order say nothing. -/
def findOptions (sort : Option Document) (limit : Option Int) : Document :=
  let order := sort.getD []
  (if order.isEmpty then [] else [(.text "sort", sortPairs order)]) ++
    match limit with
    | some n => if n = 0 then [] else [(.text "limit", .int n)]
    | none => []

/-- The calls that carry out a request. -/
def calls (base : Value) (session : Option Nat) (r : Request) : List Call :=
  let on (name : String) (args : List Value) (options : Document) : Call :=
    .method (.collection base r.collection) name args options session
  let upserting (upsert : Bool) : Document := [(.text "upsert", .bool upsert)]
  match r.operation with
  | .aggregate pipeline => [on "aggregate" [.list pipeline] [], .readAll]
  | .explain pipeline =>
    [.method (.database base) "command" [.text "aggregate", .text r.collection]
      [(.text "pipeline", .list pipeline), (.text "explain", .bool true)] session]
  | .insertOne d => [on "insert_one" [.dict d] []]
  | .insertMany ds =>
    if ds.isEmpty then [] else [on "insert_many" [.list (ds.map .dict)] []]
  | .replaceOne filter d upsert => [on "replace_one" [.dict filter, .dict d] (upserting upsert)]
  | .updateOne filter update upsert =>
    [on "update_one" [.dict filter, update] (upserting upsert)]
  | .updateMany filter update => [on "update_many" [.dict filter, update] []]
  | .findOneAndUpdate filter update upsert =>
    [on "find_one_and_update" [.dict filter, update]
      (upserting upsert ++ [(.text "return_document", .bool true)])]
  | .deleteOne filter => [on "delete_one" [.dict filter] []]
  | .deleteMany filter => [on "delete_many" [.dict filter] []]
  | .findOne filter => [on "find_one" [.dict filter] []]
  | .findMany filter sort limit => [on "find" [.dict filter] (findOptions sort limit), .readAll]
  | .count filter => [on "count_documents" [.dict (filter.getD [])] []]
  | .distinct key filter => [on "distinct" [.text key, .dict (filter.getD [])] []]

end DocumentMapper.Database
