/-!
# Binary floating-point numbers as exact values

A finite number is a sign, a natural mantissa `m` and an exponent `q`, and means `m · 2 ^ q`.
`ofRatio` goes the other way: it is the number nearest to a quotient of natural numbers, and of
two equally near ones the one with the even mantissa. All arithmetic in between is exact, so
reading a numeral, converting an integer and dividing two integers each round once.
-/

namespace DocumentMapper.Number

/-- The exact value of a finite number. -/
structure Dyadic where
  negative : Bool
  mantissa : Nat
  exponent : Int
  deriving DecidableEq, Repr

/-- The exact value of `x`, or none for an infinity or not-a-number. -/
def Dyadic.ofFloat? (x : Float) : Option Dyadic :=
  let bits := x.toBits.toNat
  let negative := bits / Nat.pow 2 63 == 1
  let biased : Nat := bits / Nat.pow 2 52 % Nat.pow 2 11
  let fraction : Nat := bits % Nat.pow 2 52
  if biased = 2047 then none
  else if biased = 0 then some ⟨negative, fraction, -1074⟩
  else some ⟨negative, fraction + Nat.pow 2 52, (biased : Int) - 1075⟩

/-- Whether `x` is zero of either sign. -/
def isZero (x : Float) : Bool :=
  x.toBits.toNat % Nat.pow 2 63 == 0

def isNotANumber (x : Float) : Bool :=
  2047 * Nat.pow 2 52 < x.toBits.toNat % Nat.pow 2 63

/-- The bits of `x`, but the same for both zeros and for every not-a-number. -/
def identityBits (x : Float) : Nat :=
  if isZero x then 0
  else if isNotANumber x then Nat.pow 2 64
  else x.toBits.toNat

/-- Whether two floating-point numbers have the same value, not-a-number being one value. -/
def sameFloat (x y : Float) : Bool :=
  identityBits x == identityBits y

/-- Numerator and denominator of `m · 2 ^ q`. -/
def Dyadic.ratio (d : Dyadic) : Nat × Nat :=
  match d.exponent with
  | .ofNat k => (d.mantissa * Nat.pow 2 k, 1)
  | .negSucc k => (d.mantissa, Nat.pow 2 (k + 1))

/-- The integer part, the fraction dropped. -/
def Dyadic.truncate (d : Dyadic) : Int :=
  let (num, den) := d.ratio
  let size : Int := (num / den : Nat)
  if d.negative then -size else size

/-- Whether the value is an integer. -/
def Dyadic.isInteger (d : Dyadic) : Bool :=
  let (num, den) := d.ratio
  num % den == 0

/-- The least integer that is not below the value. -/
def Dyadic.ceiling (d : Dyadic) : Int :=
  if d.negative || d.isInteger then d.truncate else d.truncate + 1

/-- The quotient rounded to the nearest natural number, a tie going to the even one. -/
def roundHalfEven (num den : Nat) : Nat :=
  let q := num / den
  let r := num % den
  if 2 * r < den then q
  else if den < 2 * r then q + 1
  else q + q % 2

def signBit (negative : Bool) : Nat :=
  if negative then Nat.pow 2 63 else 0

/-- The place of the last binary digit kept of `num / den`: 53 digits are kept, fewer near zero. -/
def lastPlace (num den : Nat) : Int :=
  let guess : Int := (num.log2 : Int) - den.log2 - 52
  let above := match guess with
    | .ofNat k => decide (den * Nat.pow 2 k * Nat.pow 2 52 ≤ num)
    | .negSucc k => decide (den * Nat.pow 2 52 ≤ num * Nat.pow 2 (k + 1))
  max (if above then guess else guess - 1) (-1074)

/-- The bits of the number nearest to `num / den`, infinite when that is too large. -/
def ratioBits (negative : Bool) (num den : Nat) : Nat :=
  if num = 0 then signBit negative
  else
    let place := lastPlace num den
    let kept := match place with
      | .ofNat k => roundHalfEven num (den * Nat.pow 2 k)
      | .negSucc k => roundHalfEven (num * Nat.pow 2 (k + 1)) den
    let bits := (place + 1074).toNat * Nat.pow 2 52 + kept
    signBit negative + min bits (2047 * Nat.pow 2 52)

def ofRatio (negative : Bool) (num den : Nat) : Float :=
  Float.ofBits (UInt64.ofNat (ratioBits negative num den))

/-- Whether a number is neither infinite nor not-a-number. -/
def isFinite (x : Float) : Bool :=
  (Dyadic.ofFloat? x).isSome

/-- The number nearest to an integer, or none when it is too large for a finite one. -/
def ofInt? (n : Int) : Option Float :=
  let x := ofRatio (n < 0) n.natAbs 1
  if isFinite x then some x else none

/-- The quotient of two integers rounded once, or none when it is too large for a finite one. -/
def quotient? (n d : Int) : Option Float :=
  let x := ofRatio ((n < 0) != (d < 0)) n.natAbs d.natAbs
  if isFinite x then some x else none

/-- The number nearest to `digits · 10 ^ exponent`. Exponents far outside the range of finite
numbers are answered without forming the power. -/
def ofScientific (negative : Bool) (digits : Nat) (exponent : Int) : Float :=
  if digits = 0 then ofRatio negative 0 1
  else if exponent > 400 then ofRatio negative (Nat.pow 2 1100) 1
  else if exponent < -(400 + (digits.log2 : Int)) then ofRatio negative 0 1
  else match exponent with
    | .ofNat k => ofRatio negative (digits * Nat.pow 10 k) 1
    | .negSucc k => ofRatio negative digits (Nat.pow 10 (k + 1))

/-- Whether an integer and a number have the same value. -/
def sameInt (n : Int) (x : Float) : Bool :=
  match Dyadic.ofFloat? x with
  | some d => d.isInteger && d.truncate == n
  | none => false

/-- Whether an integer lies strictly below a number. -/
def intLt (n : Int) (x : Float) : Bool :=
  match Dyadic.ofFloat? x with
  | some d => n < d.ceiling
  | none => x > 0

/-- Whether a number lies strictly below an integer. -/
def ltInt (x : Float) (n : Int) : Bool :=
  match Dyadic.ofFloat? x with
  | some d => (if d.isInteger then d.truncate else d.ceiling - 1) < n
  | none => x < 0

theorem roundHalfEven_of_dvd {num den : Nat} (h : num % den = 0) (pos : 0 < den) :
    roundHalfEven num den = num / den := by
  simp [roundHalfEven, h, pos]

end DocumentMapper.Number
