import DocumentMapper.Document

/-!
# Schemas

A schema is what a model declares about its records: where they are stored, how they are numbered
and deleted, which columns keep times and users, and which part of a record other documents embed.
The names of such columns are values because a declaration may leave one empty or null to say that
there is no such column.
-/

namespace DocumentMapper

/-- What deleting a record does to it. -/
inductive DeleteStrategy where
  | hard
  /-- The record stays and is marked as deleted. -/
  | soft
  /-- A copy of the record goes to the trash of its collection first. -/
  | trash
  deriving DecidableEq, Repr, Inhabited

def DeleteStrategy.name : DeleteStrategy → String
  | hard => "hardDelete"
  | soft => "softDelete"
  | trash => "trash"

/-- A member of its own that a model gives to its records. -/
inductive Method where
  /-- The record's own columns of some names. -/
  | only (columns : List String)
  | nothing
  | failing (reason : String)
  | value (v : Value)

structure Schema where
  name : String
  /-- Whether this is the root of all models, whose listeners hear of the records of all. -/
  isRoot : Bool
  collection : String
  primaryId : Value
  singularName : Value
  perPage : Value
  firstId : Int
  idStep : Int
  deletion : DeleteStrategy
  embedded : List String
  embeddedExcept : List String
  /-- Whether embedded copies leave out the columns of times and users. -/
  embeddedUnstamped : Bool
  createdAt : Value
  updatedAt : Value
  deletedAt : Value
  createdBy : Value
  updatedBy : Value
  deletedBy : Value
  methods : List (String × Method)

namespace Schema

/-- The schema of a model that declares nothing. -/
def plain (name : String) : Schema where
  name := name
  isRoot := false
  collection := ""
  primaryId := .text "id"
  singularName := .null
  perPage := .null
  firstId := 1
  idStep := 1
  deletion := .trash
  embedded := []
  embeddedExcept := []
  embeddedUnstamped := false
  createdAt := .text "createdAt"
  updatedAt := .text "updatedAt"
  deletedAt := .text "deletedAt"
  createdBy := .text "createdBy"
  updatedBy := .text "updatedBy"
  deletedBy := .text "deletedBy"
  methods := []

instance : Inhabited Schema := ⟨plain ""⟩

/-- The columns of times and users. -/
def stamps (s : Schema) : List Value :=
  [s.createdAt, s.updatedAt, s.deletedAt, s.createdBy, s.updatedBy, s.deletedBy]

/-- The collection that keeps the deleted records of the model. -/
def trashCollection (s : Schema) : String :=
  s.collection ++ "Trash"

end Schema

end DocumentMapper
