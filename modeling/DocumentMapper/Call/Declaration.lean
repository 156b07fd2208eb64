import DocumentMapper.Model.Schema
import DocumentMapper.Document

/-!
# Schemas by declaration

What a model declares under the names that scripts give to its settings. A setting that is not
declared is the one of a model that declares nothing.
-/

namespace DocumentMapper

/-- The strategy of a name. -/
def DeleteStrategy.ofName? (name : String) : Option DeleteStrategy :=
  [hard, soft, trash].find? fun s => s.name == name

namespace Schema

/-- The texts in a list. -/
def texts : Value → List String
  | .list items => items.filterMap fun
    | .text s => some s
    | _ => none
  | _ => []

def ofSettings (name : String) (settings : Document) : Schema :=
  let plain := Schema.plain name
  let value (key : String) (fallback : Value) : Value := (settings.field? key).getD fallback
  let int (key : String) (fallback : Int) : Int :=
    match settings.field? key with
    | some (.int n) => n
    | _ => fallback
  let text (key : String) (fallback : String) : String :=
    match settings.field? key with
    | some (.text s) => s
    | _ => fallback
  { plain with
    isRoot := name == "Model"
    collection := text "collection" plain.collection
    primaryId := value "primary_id_column" plain.primaryId
    singularName := value "singular_name" plain.singularName
    perPage := value "per_page" plain.perPage
    firstId := int "initial_id" plain.firstId
    idStep := int "increment_id_by" plain.idStep
    deletion := (DeleteStrategy.ofName? (text "delete_strategy" "")).getD plain.deletion
    embedded := texts (settings.fieldOrNull "embedded")
    embeddedExcept := texts (settings.fieldOrNull "embed_all_except")
    embeddedUnstamped :=
      (settings.fieldOrNull "embed_all_except_timestamps_and_user_columns").isTruthy
    createdAt := value "created_at_column" plain.createdAt
    updatedAt := value "updated_at_column" plain.updatedAt
    deletedAt := value "deleted_at_column" plain.deletedAt
    createdBy := value "created_by_column" plain.createdBy
    updatedBy := value "updated_by_column" plain.updatedBy
    deletedBy := value "deleted_by_column" plain.deletedBy }

end Schema

end DocumentMapper
