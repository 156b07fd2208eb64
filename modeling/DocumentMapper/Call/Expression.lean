import DocumentMapper.Call.Arguments
import DocumentMapper.Expression

/-!
# Expressions by name

The builders of expressions under the names that scripts give them, some under two names.
-/

namespace DocumentMapper.Expression

open Parameters

/-- One column. -/
def ofColumn (build : Value → Except Error Value) : Parameters Value Value := do
  build (← required "column")

/-- A value and perhaps a column that the expression is bound to. -/
def ofOperand (build : Value → Value → Except Error Value) (name : String) :
    Parameters Value Value := do
  build (← required name) (← optional "column" .null)

/-- A fixed expression and perhaps a column that it is bound to. -/
def ofCondition (expression : Value) : Parameters Value Value := do
  bound (← optional "column" .null) expression

/-- Two bounds and perhaps a column. -/
def ofBounds (build : Value → Value → Value → Except Error Value) : Parameters Value Value := do
  build (← required "min_value") (← required "max_value") (← optional "column" .null)

/-- The builder of a name. -/
def named? : String → Option (Parameters Value Value)
  | "column_name" => ofColumn Column.reference
  | "count" => some do count (← optional "column" .null)
  | "sum_" => some do sum (← required "column") (← optional "base_column" .null)
  | "avg" | "average" => ofColumn avg
  | "min_" => ofColumn min
  | "max_" => ofColumn max
  | "first" => ofColumn first
  | "last" => ofColumn last
  | "push" => some do push (← required "data")
  | "add_to_set" => ofColumn addToSet
  | "year" => ofColumn year
  | "first_year" => ofColumn (firstOf year)
  | "last_year" => ofColumn (lastOf year)
  | "month" => ofColumn month
  | "first_month" => ofColumn (firstOf month)
  | "last_month" => ofColumn (lastOf month)
  | "day_of_month" => ofColumn dayOfMonth
  | "first_day_of_month" => ofColumn (firstOf dayOfMonth)
  | "last_day_of_month" => ofColumn (lastOf dayOfMonth)
  | "day_of_week" => ofColumn dayOfWeek
  | "week" => ofColumn week
  | "columns" => some do columns (← others)
  | "gt" | "greater_than" => ofOperand (comparison "$gt") "value"
  | "gte" | "greater_than_or_equal" => ofOperand (comparison "$gte") "value"
  | "lt" | "less_than" => ofOperand (comparison "$lt") "value"
  | "lte" | "less_than_or_equal" => ofOperand (comparison "$lte") "value"
  | "eq" => some do return eq (← others)
  | "ne" => some do return apply "$ne" (← required "value")
  | "in_array" => some do return apply "$in" (← required "value")
  | "nin" | "not_in" => some do return apply "$nin" (← required "value")
  | "exists" => some do
    let v ← optional "value" (.bool true)
    comparison "$exists" v (← optional "column" .null)
  | "not_exists" => ofCondition (apply "$exists" (.bool false))
  | "like" => ofOperand like "value"
  | "not_like" => ofOperand notLike "value"
  | "not_null" => ofCondition (apply "$ne" .null)
  | "is_null" => ofCondition (apply "$eq" .null)
  | "between" => ofBounds between
  | "not_between" => ofBounds notBetween
  | "regex" => ofOperand (comparison "$regex") "value"
  | "all_" => ofOperand (comparison "$all") "values"
  | "concat" | "merge" => some do return concat (← others)
  | "concat_with" | "merge_with" => some do concatWith (← required "separator") (← others)
  | "cond" | "condition" => some do
    let condition ← required "condition"
    let ifTrue ← required "if_true"
    let ifFalse ← required "if_false"
    cond condition ifTrue ifFalse (← optional "column" .null)
  | "boolean_cond" => some do
    let condition ← required "condition"
    cond condition (.bool true) (.bool false) (← optional "column" .null)
  | "multiply" => some do onColumns "$multiply" (← others)
  | "_multiply" => some do return apply "$multiply" (.list (← others))
  | "divide" => some do onColumns "$divide" (← others)
  | "_divide" => some do return apply "$divide" (.list (← others))
  | "expr" => some do return expr (← required "expression")
  | _ => none

end DocumentMapper.Expression
