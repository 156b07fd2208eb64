import DocumentMapper.Value.Access

/-!
# Filter operators

The closed set of operators that a filter clause may name, each with the token that callers write
and the operator of the query language that it compiles to.
-/

namespace DocumentMapper

inductive Operator where
  | eq | ne | not | gt | gte | lt | lte
  | isIn | nin | notIn | all | elemMatch | size
  | exists | type | mod
  | between | notBetween
  | geoIntersects | geoWithin | near | nearSphere
  | regex | like | notLike | startsWith | endsWith | notStartsWith | notEndsWith
  deriving DecidableEq, Repr

namespace Operator

def every : List Operator :=
  [eq, ne, not, gt, gte, lt, lte, isIn, nin, notIn, all, elemMatch, size, «exists», type, mod,
    between, notBetween, geoIntersects, geoWithin, near, nearSphere, regex, like, notLike,
    startsWith, endsWith, notStartsWith, notEndsWith]

/-- What callers write. -/
def token : Operator → String
  | eq => "="
  | ne => "!="
  | not => "not"
  | gt => ">"
  | gte => ">="
  | lt => "<"
  | lte => "<="
  | isIn => "in"
  | nin => "nin"
  | notIn => "notIn"
  | all => "all"
  | elemMatch => "elemMatch"
  | size => "size"
  | «exists» => "exists"
  | type => "type"
  | mod => "mod"
  | between => "between"
  | notBetween => "notBetween"
  | geoIntersects => "geoIntersects"
  | geoWithin => "geoWithin"
  | near => "near"
  | nearSphere => "nearSphere"
  | regex => "regex"
  | like => "like"
  | notLike => "notLike"
  | startsWith => "startsWith"
  | endsWith => "endsWith"
  | notStartsWith => "notStartsWith"
  | notEndsWith => "notEndsWith"

/-- The operator of the query language. -/
def native : Operator → String
  | eq => "$eq"
  | ne => "$ne"
  | not => "$not"
  | gt => "$gt"
  | gte => "$gte"
  | lt => "$lt"
  | lte => "$lte"
  | isIn => "$in"
  | nin | notIn => "$nin"
  | all => "$all"
  | elemMatch => "$elemMatch"
  | size => "$size"
  | «exists» => "$exists"
  | type => "$type"
  | mod => "$mod"
  | between | notBetween => "$between"
  | geoIntersects => "$geoIntersects"
  | geoWithin => "$geoWithin"
  | near => "$near"
  | nearSphere => "$nearSphere"
  | regex | like | notLike | startsWith | endsWith | notStartsWith | notEndsWith => "$regex"

def ofToken? (s : String) : Option Operator :=
  every.find? fun op => op.token == s

/-- The operator that a value names. -/
def ofValue : Value → Except Error Operator
  | .text s => (ofToken? s).elim (.error (.unknownOperator (.text s))) .ok
  | v => .error (.unknownOperator v)

/-- Whether a value is a token; one that cannot be looked up is an error. -/
def isToken (v : Value) : Except Error Bool := do
  match ← v.asKey with
  | .text s => .ok (ofToken? s).isSome
  | _ => .ok false

theorem ofToken?_token (op : Operator) : ofToken? op.token = some op := by
  cases op <;> decide

end Operator

end DocumentMapper
