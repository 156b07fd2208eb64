import DocumentMapper.Document

/-!
# Requests to the database

A request names a collection and one operation on it. Queries and records know nothing else of
the database than the answers to their requests, and the kind of an answer goes with the request.
-/

namespace DocumentMapper

inductive Operation where
  /-- Runs a pipeline. -/
  | aggregate (pipeline : List Value)
  /-- Asks how a pipeline would be run. -/
  | explain (pipeline : List Value)
  | insertOne (document : Document)
  | insertMany (documents : List Document)
  | replaceOne (filter document : Document) (upsert : Bool)
  /-- Changes one document; with `upsert`, makes one if there is none to change. -/
  | updateOne (filter : Document) (update : Value) (upsert : Bool)
  | updateMany (filter : Document) (update : Value)
  /-- Changes one document in a single step and gives it as it is afterwards. -/
  | findOneAndUpdate (filter : Document) (update : Value) (upsert : Bool)
  | deleteOne (filter : Document)
  | deleteMany (filter : Document)
  | findOne (filter : Document)
  | findMany (filter : Document) (sort : Option Document) (limit : Option Int)
  | count (filter : Option Document)
  /-- The different values under a key. -/
  | distinct (key : String) (filter : Option Document)
  deriving Inhabited

/-- What the database answers to an operation. -/
abbrev Operation.Answer : Operation → Type
  | aggregate _ => List Document
  | explain _ => Document
  | insertOne _ => Value
  | insertMany _ => List Value
  | replaceOne .. | updateOne .. | updateMany .. => Int
  | findOneAndUpdate .. => Option Document
  | deleteOne _ | deleteMany _ => Int
  | findOne _ => Option Document
  | findMany .. => List Document
  | count _ => Int
  | distinct .. => List Value

structure Request where
  collection : String
  operation : Operation
  deriving Inhabited

abbrev Request.Answer (r : Request) : Type := r.operation.Answer

end DocumentMapper
