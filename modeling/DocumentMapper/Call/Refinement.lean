import DocumentMapper.Call.Arguments
import DocumentMapper.Pipeline.Refinement

/-!
# Refinements by name

The calls of a query builder under the names that scripts give them. Many are clauses with a fixed
operator.
-/

namespace DocumentMapper.Refinement

open Parameters

/-- A clause on a column with an operand of the caller's. -/
def ofOperator (operator operand : String) : Option (Parameters Value Refinement) :=
  some do
    let column ← required "column"
    return clause [column, .text operator, ← required operand]

/-- A clause on a column with a fixed condition. -/
def ofColumn (condition : List Value) : Option (Parameters Value Refinement) :=
  some do return clause ((← required "column") :: condition)

def descending : Option (Parameters Value Refinement) :=
  some do return sort (← required "column") (.text "desc")

/-- The order of a date column, that of creation if none is named. -/
def byAge (direction : String) : Option (Parameters Value Refinement) :=
  some do return sort (← optional "column" (.text "createdAt")) (.text direction)

def ascending : Option (Parameters Value Refinement) :=
  some do
    let column ← required "column"
    return sort column (← optional "direction" (.text "asc"))

def grouping (parts : List DatePart) : Option (Parameters Value Refinement) :=
  some do
    let column ← required "column"
    return groupByDate parts column (← optional "data" .null)

/-- A stage as it is. -/
def plainStage (v : Value) : Except Error Refinement :=
  match v with
  | .stage name payload => .ok (stage ⟨name, payload⟩)
  | v => .error (.misuse (.member v.qualifiedKind "parse"))

/-- The refinement of a name. -/
def named? : String → Option (Parameters Value Refinement)
  | "pipeline" => some do plainStage (← required "stage")
  | "add_pipeline" => some do return raw (← required "stage")
  | "add_pipelines" => some do return raws (← required "stages")
  | "reset" => some (return reset)
  | "where" => some do return clause (← others)
  | "or_where" => some do return anyOf (← others)
  | "where_columns" => some do
    let column ← required "column"
    let operator ← required "operator"
    return compare column operator (← others)
  | "where_null" => ofColumn [.null]
  | "where_not_null" => ofColumn [.text "!=", .null]
  | "where_like" => ofOperator "like" "value"
  | "where_not_like" => ofOperator "notLike" "value"
  | "where_starts_with" => ofOperator "startsWith" "value"
  | "where_not_starts_with" => ofOperator "notStartsWith" "value"
  | "where_ends_with" => ofOperator "endsWith" "value"
  | "where_not_ends_with" => ofOperator "notEndsWith" "value"
  | "where_between" | "where_date_between" => ofOperator "between" "value"
  | "where_not_between" | "where_date_not_between" => ofOperator "notBetween" "value"
  | "where_exists" => ofColumn [.text "exists", .bool true]
  | "where_not_exists" => ofColumn [.text "exists", .bool false]
  | "where_in" => ofOperator "in" "values"
  | "where_not_in" => ofOperator "notIn" "values"
  | "where_near" => some do
    let column ← required "column"
    let place ← required "value"
    return near column place (← optional "max_distance" .null)
  | "where_size" => some do
    let column ← required "column"
    return arraySize column (← others)
  | "select" => some do return select (← others)
  | "deselect" => some do return deselect (← others)
  | "project" => some do return project (← required "data")
  | "add_field" => some do
    let field ← required "field"
    return addField field (← required "value")
  | "add_fields" => some do return addFields (← required "fields")
  | "unwind" => some do
    let column ← required "column"
    let keepEmpty ← optional "preserve_null_and_empty_arrays" (.bool false)
    return unwind column keepEmpty (← optional "include_array_index" .null)
  | "lookup" => some do return lookup (← required "options")
  | "sort" | "order_by" => ascending
  | "sort_by_desc" | "order_by_desc" => descending
  | "sort_by" => some do return sortBy (← required "columns")
  | "latest" => byAge "desc"
  | "oldest" => byAge "asc"
  | "random" => some do return sample (← optional "limit" .null)
  | "skip" => some do return skip (← required "skip")
  | "limit" => some do return limit (← required "limit")
  | "group_by" => some do
    let key ← required "group_id"
    return group key (← optional "data" .null)
  | "group_by_year" => grouping [.year]
  | "group_by_month" => grouping [.month]
  | "group_by_month_and_year" => grouping [.year, .month]
  | "group_by_date" => grouping [.year, .month, .day]
  | "group_by_week" => grouping [.year, .week]
  | "group_by_day_of_month" => grouping [.day]
  | _ => none

end DocumentMapper.Refinement
