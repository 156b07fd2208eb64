import DocumentMapper.Database.Program
import DocumentMapper.Value.Access

/-!
# Counters

Every collection has a counter, a document that holds the last number given out. A number is taken
by raising the counter in one single request, so two callers never get the same. A collection
without a counter gets one first, set so that raising it gives the first number; if two callers
find none, only one of them makes it.
-/

namespace DocumentMapper.Counter

open Database

/-- The collection of the counters. -/
def home : String := "MasterMind"

/-- The filter for the counter of a collection. -/
def selector (collection : String) : Document :=
  [(.text "collection", .text collection)]

def raising (step : Int) : Value :=
  .single "$inc" (.single "id" (.int step))

def seeding (start : Int) : Value :=
  .single "$setOnInsert" (.single "id" (.int start))

/-- The number that a counter holds. -/
def number (counter : Option Document) : Except Error Value :=
  match counter with
  | some d => (Value.dict d).field "id"
  | none => .error (.misuse (.subscript Value.null.qualifiedKind))

def ofOutcome {α : Type} : Except Error α → Program α
  | .ok a => .done a
  | .error e => .fail e

/-- The request that raises the counter of a collection. -/
def raise (collection : String) (step : Int) : Request :=
  ⟨home, .findOneAndUpdate (selector collection) (raising step) false⟩

/-- The request that makes the counter of a collection unless there is one. -/
def seed (collection : String) (start : Int) : Request :=
  ⟨home, .updateOne (selector collection) (seeding start) true⟩

/-- Takes the next number of a collection. -/
def next (collection : String) (step first : Int) : Program Value :=
  .call (raise collection step) fun
    | some d => ofOutcome (number (some d))
    | none =>
      .call (seed collection (first - step)) fun _ =>
        .call (raise collection step) fun counter => ofOutcome (number counter)

/-- The last number given out, zero if there is none. -/
def last (collection : String) : Program Value :=
  .call ⟨home, .findOne (selector collection)⟩ fun
    | some (e :: d) => ofOutcome (number (some (e :: d)))
    | _ => .done (.int 0)

end DocumentMapper.Counter
