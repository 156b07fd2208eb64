import DocumentMapper.Model.Lifecycle

/-!
# Contexts and records for examples

The database of these contexts finds the same documents whatever it is asked for, answers a
replacement by a given action and refuses every other request. Its models declare nothing, nobody
listens, and its clock stands still, so that a run in it depends on the documents alone. Beside it
stand rules that say no more than they must, and shops that are watched by some people.

Another database holds nothing and keeps a journal of what it is asked for.
-/

namespace DocumentMapper

open Calendar

variable {σ : Type}

namespace Context

def sample (documents : List Document) (replace : Document → Action σ Int) : Context σ where
  model name := { (default : Model σ) with toSchema := Schema.plain name }
  bound := true
  perPage := .null
  execute
    | ⟨_, .aggregate _⟩ => return documents
    | ⟨_, .replaceOne _ d _⟩ => replace d
    | _ => throw (.raised "refused")
  now := return default
  log _ := return
  listeners _ _ := return []

/-- A database that takes every document that replaces another one. -/
def quiet : Context Unit :=
  sample [] fun _ => return 1

end Context

/-- What a database answers that holds nothing and takes everything. -/
def Operation.nothing : (op : Operation) → op.Answer
  | aggregate _ | explain _ | insertMany _ | findMany .. | distinct .. => []
  | insertOne _ => .int 7
  | findOneAndUpdate .. | findOne _ => none
  | replaceOne .. | updateOne .. | updateMany .. | deleteOne _ | deleteMany _ | count _ => (0 : Int)

/-- A rule that says nothing but where the copies are. -/
def Sync.Rule.sample (target : String) (columns : List String) (mode : Sync.Mode) :
    Sync.Rule σ where
  target := target
  columns := columns
  member := "embedded_data"
  onDelete := .unset
  mode := mode
  embedFrom := ""
  watched := none
  refiner := none
  policy := .continue

namespace Sample

def person (id : Int) (name : String) : Document :=
  [(.text "id", .int id), (.text "name", .text name)]

def ann : Record :=
  .ofData "Customer" (person 1 "Ann")

/-- A stored shop with a list of watchers. -/
def shop (watchers : List Document) : Record :=
  .ofData "Shop" [(.text "_id", .int 7), (.text "watchers", .list (watchers.map .dict))]

def watchersRule : Sync.Rule Unit :=
  .sample "Shop" ["watchers"] .many

/-- Noon on a clock that does not say how far it is ahead of UTC. -/
def noon : Moment :=
  ⟨63844891200000000, none, by decide, Moment.no_offset_lt⟩

/-- The same noon on a clock of UTC. -/
def noonUtc : Moment :=
  ⟨63844891200000000, some 0, by decide, Moment.zero_offset_lt⟩

def order (due : Moment) : Value :=
  .dict [(.text "id", .int 31), (.text "due", .moment due)]

def beforeNoon : List Refinement :=
  [.clause [.text "createdAt", .text "<", .moment noon]]

def anyAtNoon : List Refinement :=
  [.anyOf [.dict [(.text "createdAt", .moment noon)]]]

end Sample

/-- It is always noon, and the state is the journal. -/
def Context.journaling : Context (List Request) where
  model name := { (default : Model (List Request)) with toSchema := Schema.plain name }
  bound := true
  perPage := .null
  execute r := do
    modify (· ++ [r])
    return r.operation.nothing
  now := return Sample.noonUtc
  log _ := return
  listeners _ _ := return []

end DocumentMapper
