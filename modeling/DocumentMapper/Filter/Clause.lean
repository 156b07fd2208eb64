import DocumentMapper.Filter.Operator
import DocumentMapper.Pattern.Escape
import DocumentMapper.Column
import DocumentMapper.Dates

/-!
# Filter clauses

A clause is a whole filter, a column and a value, or a column, an operator and a value. It
compiles to a filter: a dictionary from columns to expressions, whose keys are operators of the
query language. Moments are put on a clock of UTC, except inside operands of text operators,
which become patterns.
-/

namespace DocumentMapper.Filter

open Pattern

/-- A pair of bounds as an expression. -/
def range (operator : Operator) (v : Value) : Except Error Value :=
  match v with
  | .list [low, high] | .tuple [low, high] =>
    .ok (Value.ofEntries [("$gte", low), ("$lte", high)])
  | v => .error (.rangeExpected operator.token v)

/-- The expression that negates another one. -/
def negated (expression : Value) : Value :=
  .single "$not" expression

def matching (anchor : Anchor) (ignoreCase : Bool) (v : Value) : Value :=
  .single "$regex" (.pattern (literalFor anchor ignoreCase v))

/-- The expression of an operator whose operand is taken on a clock of UTC. -/
def plainExpression (operator : Operator) (v : Value) : Except Error Value := do
  let v ← v.normalizeDates
  match operator with
  | .between => range operator v
  | .notBetween => do .ok (negated (← range operator v))
  | _ => .ok (.single operator.native v)

/-- The expression of an operator and its operand. A text after `in` names a column. -/
def expression (operator : Operator) (v : Value) : Except Error Value :=
  match operator with
  | .like => .ok (matching .anywhere true v)
  | .notLike => .ok (negated (matching .anywhere true v))
  | .startsWith => .ok (matching .start false v)
  | .endsWith => .ok (matching .finish false v)
  | .notStartsWith => .ok (negated (matching .start false v))
  | .notEndsWith => .ok (negated (matching .finish false v))
  | .isIn =>
    if v.isText then do .ok (.single "$in" (← Column.reference v)) else plainExpression operator v
  | .notIn =>
    if v.isText then do .ok (negated (.single "$in" (← Column.reference v)))
    else plainExpression operator v
  | _ => plainExpression operator v

/-- The filter with one column. -/
def onColumn (column : Value) (operator : Operator) (v : Value) : Except Error Value := do
  let e ← expression operator v
  .ok (.dict [(← column.asKey, e)])

/-- The filter of a clause given by its parts. -/
def ofClause : List Value → Except Error Value
  | [.dict entries] => (Value.dict entries).normalizeDates
  | [v] => .error (.filterExpected v.kind)
  | [column, v] => onColumn column .eq v
  | [column, operator, v] => do onColumn column (← Operator.ofValue operator) v
  | args => .error (.clauseArguments args.length)

end DocumentMapper.Filter
