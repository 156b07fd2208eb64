import DocumentMapper.Number.Binary

/-!
# The shortest decimal of a number

A number is written with the fewest digits that read back as the same number, and of the decimals
of that length with the one nearest to it, of two equally near ones the even one. For each length
in turn the two neighbours of the exact value on the decimal grid are tried: if any decimal of that
length reads back, one of them does.
-/

namespace DocumentMapper.Number

/-- Where the point stands and how the exponent is written. -/
structure Layout where
  /-- Positional while the point lies right of this place. -/
  leastPlace : Int
  /-- Positional while the point lies at most at this place. -/
  mostPlace : Int
  exponentDigits : Nat
  infinite : String
  undefined : String

/-- Positional from 0.0001 below 10 ^ 16, always with a point; else an exponent of two digits. -/
def standard : Layout :=
  ⟨-4, 16, 2, "inf", "nan"⟩

/-- The spelling that JSON texts give to the values that JSON itself cannot express. -/
def jsonLayout : Layout :=
  { standard with infinite := "Infinity", undefined := "NaN" }

/-- The place of the first digit: the least `p` with `num / den < 10 ^ p`. -/
def leadingPlace (num den : Nat) : Int :=
  if den ≤ num then (Nat.toDigits 10 (num / den)).length
  else
    let zeros := (Nat.toDigits 10 (den / num)).length - 1
    if den ≤ num * Nat.pow 10 zeros then 1 - (zeros : Int) else -(zeros : Int)

/-- `digits · 10 ^ exponent` as a quotient. -/
def decimalRatio (digits : Nat) (exponent : Int) : Nat × Nat :=
  match exponent with
  | .ofNat k => (digits * Nat.pow 10 k, 1)
  | .negSucc k => (digits, Nat.pow 10 (k + 1))

/-- The decimal of `length` digits nearest to `num / den` among those whose bits are `bits`. -/
def decimalOfLength? (bits num den : Nat) (place : Int) (length : Nat) : Option (Nat × Int) :=
  let exponent := place - length
  let (scaledNum, scaledDen) := match exponent with
    | .ofNat k => (num, den * Nat.pow 10 k)
    | .negSucc k => (num * Nat.pow 10 (k + 1), den)
  let below := scaledNum / scaledDen
  let readsBack (digits : Nat) : Bool :=
    let (n, d) := decimalRatio digits exponent
    ratioBits false n d == bits
  let near := roundHalfEven scaledNum scaledDen
  let far := if near = below then below + 1 else below
  if readsBack near then some (near, exponent)
  else if readsBack far then some (far, exponent)
  else none

/-- Digits and exponent of the shortest decimal of a positive value. -/
def shortest (num den : Nat) : Nat × Int :=
  let bits := ratioBits false num den
  let place := leadingPlace num den
  ((List.range 17).findSome? fun n => decimalOfLength? bits num den place (n + 1)).getD
    (num / den, 0)

/-- The text of `0.d₁d₂… · 10 ^ place`. -/
def Layout.write (layout : Layout) (digits : List Char) (place : Int) : List Char :=
  let zeros (n : Int) : List Char := List.replicate n.toNat '0'
  if layout.leastPlace < place && place ≤ layout.mostPlace then
    if place ≤ 0 then '0' :: '.' :: zeros (-place) ++ digits
    else if (digits.length : Int) ≤ place then
      digits ++ zeros (place - digits.length) ++ ['.', '0']
    else digits.take place.toNat ++ '.' :: digits.drop place.toNat
  else
    let exponent := place - 1
    let size := Nat.toDigits 10 exponent.natAbs
    let mantissa := match digits with
      | [d] => [d]
      | d :: rest => d :: '.' :: rest
      | [] => []
    mantissa ++ 'e' :: (if exponent < 0 then '-' else '+') ::
      List.replicate (layout.exponentDigits - size.length) '0' ++ size

/-- The digits without the zeros at their end. -/
def dropTrailingZeros (digits : List Char) : List Char :=
  (digits.reverse.dropWhile (· == '0')).reverse

def Layout.text (layout : Layout) (x : Float) : String :=
  match Dyadic.ofFloat? x with
  | none =>
    if x > 0 then layout.infinite
    else if x < 0 then "-" ++ layout.infinite
    else layout.undefined
  | some d =>
    let sign := if d.negative then "-" else ""
    if d.mantissa = 0 then sign ++ "0.0"
    else
      let (num, den) := d.ratio
      let (digits, exponent) := shortest num den
      let all := Nat.toDigits 10 digits
      sign ++ String.ofList (layout.write (dropTrailingZeros all) (exponent + all.length))

end DocumentMapper.Number
