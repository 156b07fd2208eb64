import DocumentMapper.Call.Arguments
import DocumentMapper.Pipeline.Stage

/-!
# Stages by name

The builders of stages under the names that scripts give them.
-/

namespace DocumentMapper.Stage

open Parameters

/-- The builder of a name. -/
def named? : String → Option (Parameters Value Stage)
  | "where_stage" => some do return filter (← required "expression")
  | "or_where_stage" => some do anyOf (← required "operations")
  | "select_stage" => some do select (← required "columns")
  | "deselect_stage" => some do deselect (← required "columns")
  | "project_stage" => some do return project (← required "data")
  | "sort_stage" => some do
    let column ← required "column"
    sort column (← optional "direction" (.text "asc"))
  | "sort_by_stage" => some do sortBy (← required "columns")
  | "group_by_stage" => some do
    let key ← required "group_id"
    group key (← optional "data" .null)
  | "skip_stage" => some do return skip (← required "skip")
  | "limit_stage" => some do return limit (← required "limit")
  | "sample_stage" => some do return sample (← required "size")
  | "unwind_stage" => some do
    let column ← required "column"
    let keepEmpty ← optional "preserve_null_and_empty_arrays" (.bool false)
    unwind column keepEmpty (← optional "include_array_index" .null)
  | "lookup_stage" => some do lookup (← required "options")
  | "add_fields_stage" => some do return addFields (← required "fields")
  | "raw_stage" => some do ofValue (← required "stage")
  | _ => none

end DocumentMapper.Stage
