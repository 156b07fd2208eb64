import DocumentMapper.Text.Blank
import DocumentMapper.Text.Digit
import DocumentMapper.Number.Binary

/-!
# Reading numerals

A numeral may have blanks around it, a sign in front, decimal digits of any script, and single
underscores between two digits. An integer has nothing else; a number may have a point, an
exponent, or be one of the words for infinity and not-a-number.
-/

namespace DocumentMapper.Number

open Text

/-- The blanks allowed around a numeral: the information separators are not among them. -/
def isNumeralBlank (c : Char) : Bool :=
  isBlank c && !(0x1c ≤ c.toNat && c.toNat ≤ 0x1f)

/-- A sign in front is taken off; true means minus. -/
def takeSign : List Char → Bool × List Char
  | '-' :: rest => (true, rest)
  | '+' :: rest => (false, rest)
  | cs => (false, cs)

/-- Values of the digits at the front, an underscore being skipped between two digits, and the
rest. `after` tells whether a digit has just been read. -/
def takeDigits (after : Bool) : List Char → List Nat × List Char
  | [] => ([], [])
  | c :: rest =>
    match decimalValue? c with
    | some d =>
      let (ds, tail) := takeDigits true rest
      (d :: ds, tail)
    | none =>
      match c, rest with
      | '_', next :: _ =>
        if after && (decimalValue? next).isSome then takeDigits false rest
        else ([], c :: rest)
      | _, _ => ([], c :: rest)

def natOfDigits (digits : List Nat) : Nat :=
  digits.foldl (fun n d => 10 * n + d) 0

/-- Why a text is not an integer. -/
inductive IntegerFault where
  | malformed
  | tooLong (digits : Nat)
  deriving DecidableEq, Repr

/-- The most digits that an integer numeral may have. -/
def maxIntegerDigits : Nat := 4300

def readInteger (s : String) : Except IntegerFault Int :=
  let (negative, body) := takeSign (trimBoth isNumeralBlank s.toList)
  match takeDigits false body with
  | ([], _) => .error .malformed
  | (digits, []) =>
    if maxIntegerDigits < digits.length then .error (.tooLong digits.length)
    else
      let n : Int := natOfDigits digits
      .ok (if negative then -n else n)
  | (_, _ :: _) => .error .malformed

/-- The exponent at the front, zero when there is none, and the rest. -/
def takeExponent (cs : List Char) : Int × List Char :=
  match cs with
  | e :: rest =>
    if e = 'e' ∨ e = 'E' then
      let (negative, body) := takeSign rest
      match takeDigits false body with
      | ([], _) => (0, cs)
      | (digits, tail) =>
        let n : Int := natOfDigits digits
        (if negative then -n else n, tail)
    else (0, cs)
  | [] => (0, cs)

/-- The word without regard to the case of its letters. -/
def isWord (word : String) (cs : List Char) : Bool :=
  cs.map Char.toLower == word.toList

/-- The number of a decimal numeral with an optional fraction and exponent. -/
def decimal? (negative : Bool) (cs : List Char) : Option Float :=
  let (whole, afterWhole) := takeDigits false cs
  let (fraction, afterFraction) := match afterWhole with
    | '.' :: rest => takeDigits false rest
    | rest => ([], rest)
  if whole.isEmpty && fraction.isEmpty then none
  else
    let (exponent, rest) := takeExponent afterFraction
    if rest.isEmpty then
      some (ofScientific negative (natOfDigits (whole ++ fraction)) (exponent - fraction.length))
    else none

def infinity (negative : Bool) : Float :=
  ofRatio negative (Nat.pow 2 1100) 1

def notANumber : Float :=
  Float.ofBits 0x7ff8000000000000

def readNumber? (s : String) : Option Float :=
  let (negative, body) := takeSign (trimBoth isNumeralBlank s.toList)
  if isWord "inf" body || isWord "infinity" body then some (infinity negative)
  else if isWord "nan" body then some notANumber
  else decimal? negative body

end DocumentMapper.Number
