import DocumentMapper.Error
import DocumentMapper.Number.Numeral

/-!
# Values as numbers

Conversions of values to integers and floating-point numbers, and the arithmetic and order that
counters and pages need. Truth values count as 0 and 1; between an integer and a floating-point
number the integer is converted first for arithmetic, and compared exactly for order.
-/

namespace DocumentMapper.Value

open Number

def toFloat : Value → Except Error Float
  | bool b => .ok (if b then 1 else 0)
  | int n => (ofInt? n).elim (.error .integerTooLarge) .ok
  | float x => .ok x
  | text s => (readNumber? s).elim (.error (.notANumber s)) .ok
  | v => .error (.misuse (.toNumber v.qualifiedKind))

/-- The integer part of a floating-point number. -/
def truncate (x : Float) : Except Error Int :=
  match Dyadic.ofFloat? x with
  | some d => .ok d.truncate
  | none => .error (if isNotANumber x then .undefinedInteger else .infiniteInteger)

def toInteger : Value → Except Error Int
  | bool b => .ok (ofTruth b)
  | int n => .ok n
  | float x => truncate x
  | text s =>
    match readInteger s with
    | .ok n => .ok n
    | .error fault => .error (.notAnInteger s fault)
  | v => .error (.misuse (.toInteger v.qualifiedKind))

/-- The number a value is for arithmetic: an integer or a floating-point number. -/
inductive Numeric where
  | whole (n : Int)
  | real (x : Float)

def numeric? : Value → Option Numeric
  | bool b => some (.whole (ofTruth b))
  | int n => some (.whole n)
  | float x => some (.real x)
  | _ => none

def Numeric.toFloat : Numeric → Except Error Float
  | whole n => (ofInt? n).elim (.error .integerTooLarge) .ok
  | real x => .ok x

/-- One operation on integers and one on floating-point numbers, applied as the operands ask. -/
def arithmetic (onInt : Int → Int → Int) (onFloat : Float → Float → Float) (a b : Numeric) :
    Except Error Value :=
  match a, b with
  | .whole m, .whole n => .ok (int (onInt m n))
  | a, b => do .ok (float (onFloat (← a.toFloat) (← b.toFloat)))

/-- The error of an operation that two kinds do not have. -/
def noOperation (operator : String) (a b : Value) : Error :=
  .misuse (.operands operator a.qualifiedKind b.qualifiedKind)

/-- The sum of numbers, or one sequence after another of its kind. -/
def add (a b : Value) : Except Error Value :=
  match a, b with
  | text s, text t => .ok (text (s ++ t))
  | list xs, list ys => .ok (list (xs ++ ys))
  | tuple xs, tuple ys => .ok (tuple (xs ++ ys))
  | text _, b => .error (.misuse (.concatenation "str" b.qualifiedKind))
  | list _, b => .error (.misuse (.concatenation "list" b.qualifiedKind))
  | tuple _, b => .error (.misuse (.concatenation "tuple" b.qualifiedKind))
  | a, b =>
    match a.numeric?, b.numeric? with
    | some x, some y => arithmetic (· + ·) (· + ·) x y
    | _, _ => .error (noOperation "+" a b)

def sub (a b : Value) : Except Error Value :=
  match a.numeric?, b.numeric? with
  | some x, some y => arithmetic (· - ·) (· - ·) x y
  | _, _ => .error (noOperation "-" a b)

/-- `n` copies of a list one after another, none if `n` is not positive. -/
def copies {α : Type} (n : Int) (xs : List α) : List α :=
  (List.replicate n.toNat xs).flatten

/-- The product of numbers, or copies of a sequence. -/
def mul (a b : Value) : Except Error Value :=
  match a.numeric?, b.numeric? with
  | some x, some y => arithmetic (· * ·) (· * ·) x y
  | none, some (.whole n) => repeated a n
  | some (.whole n), none => repeated b n
  | none, some (.real _) => wrongCount a b
  | _, _ => wrongCount b a
where
  repeated (v : Value) (n : Int) : Except Error Value :=
    match v with
    | text s => .ok (text (String.ofList (copies n s.toList)))
    | list xs => .ok (list (copies n xs))
    | tuple xs => .ok (tuple (copies n xs))
    | _ => .error (noOperation "*" a b)
  wrongCount (v other : Value) : Except Error Value :=
    match v with
    | text _ | list _ | tuple _ => .error (.misuse (.repetition other.qualifiedKind))
    | _ => .error (noOperation "*" a b)

/-- Whether one number lies below another; texts are compared by code points. -/
def less (a b : Value) : Except Error Bool :=
  match a, b with
  | text s, text t => .ok (s < t)
  | a, b =>
    match a.numeric?, b.numeric? with
    | some (.whole m), some (.whole n) => .ok (m < n)
    | some (.whole m), some (.real y) => .ok (intLt m y)
    | some (.real x), some (.whole n) => .ok (ltInt x n)
    | some (.real x), some (.real y) => .ok (x < y)
    | _, _ => .error (.misuse (.comparison "<" a.qualifiedKind b.qualifiedKind))

/-- The quotient of two numbers rounded up to an integer. -/
def ceilingQuotient (a b : Value) : Except Error Int := do
  let quotient ← match a.numeric?, b.numeric? with
    | some (.whole m), some (.whole n) => (quotient? m n).elim (.error .quotientTooLarge) .ok
    | some x, some y => do .ok ((← x.toFloat) / (← y.toFloat))
    | _, _ => .error (noOperation "/" a b)
  match Dyadic.ofFloat? quotient with
  | some d => .ok d.ceiling
  | none => .error (if isNotANumber quotient then .undefinedInteger else .infiniteInteger)

end DocumentMapper.Value
