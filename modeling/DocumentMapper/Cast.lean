import DocumentMapper.Dates
import DocumentMapper.Value.Access
import DocumentMapper.Value.Number

/-!
# Casts

A cast turns a value into one of a few named kinds. Empty values become the empty value of the
kind. A name that is not known leaves the value as it is.
-/

namespace DocumentMapper

open Calendar Number

inductive CastKind where
  | string
  | integer
  | float
  | number
  | boolean
  | date
  | location
  | object
  | array
  /-- Leaves the value as it is. -/
  | any
  deriving DecidableEq, Repr

def CastKind.ofName : String → CastKind
  | "string" => string
  | "int" | "integer" => integer
  | "float" => float
  | "number" => number
  | "bool" | "boolean" => boolean
  | "date" => date
  | "location" => location
  | "object" => object
  | "array" => array
  | _ => any

namespace Calendar.Moment

/-- Seconds since 1970 as a floating-point number, the fraction rounded to microseconds. -/
def ofUnixFloat (x : Float) : Except Error Moment :=
  match Dyadic.ofFloat? x with
  | none => .error (if isNotANumber x then .undefinedUnixTime else .notAUnixTime .beyondClock)
  | some d =>
    let whole := d.truncate
    let fraction := (x - ofRatio d.negative whole.natAbs 1) * 1000000
    let micro : Int := match Dyadic.ofFloat? fraction with
      | some f =>
        let (num, den) := f.ratio
        if f.negative then -(roundHalfEven num den : Int) else roundHalfEven num den
      | none => 0
    let (whole, micro) := if micro < 0 then (whole - 1, micro + 1000000) else (whole, micro)
    let (whole, micro) :=
      if 1000000 ≤ micro then (whole + 1, micro - 1000000) else (whole, micro)
    (ofUnix whole micro.toNat).mapError .notAUnixTime

/-- The moment a text stands for; a final Z means UTC and blanks around the text do not count. -/
def parseText (s : String) : Except Error Moment := do
  let trimmed := Text.trim s
  let whole := match trimmed.toList.reverse with
    | 'Z' :: rest => String.ofList rest.reverse ++ "+00:00"
    | _ => trimmed
  let m ← (ofIso whole).mapError (.notAMoment whole)
  m.toUtc

end Calendar.Moment

namespace Value

/-- The moment in UTC that a value stands for: a moment, seconds since 1970, or the text of a
moment. Null and the empty text stand for no moment. -/
def parseMoment : Value → Except Error Value
  | null => .ok null
  | text "" => .ok null
  | moment m => do .ok (moment (← m.toUtc))
  | int n => do .ok (moment (← (Moment.ofUnix n 0).mapError .notAUnixTime))
  | float x => do .ok (moment (← Moment.ofUnixFloat x))
  | v => do .ok (moment (← Moment.parseText v.display))

/-- Null and texts, lists and dictionaries without parts; an empty tuple is not empty here. -/
def isEmpty : Value → Bool
  | null => true
  | text s => s.isEmpty
  | list items => items.isEmpty
  | dict entries => entries.isEmpty
  | _ => false

/-- An integer if the number is one. -/
def wholeOrFloat (x : Float) : Value :=
  match Dyadic.ofFloat? x with
  | some d => if d.isInteger then int d.truncate else float x
  | none => float x

def toNumber : Value → Except Error Value
  | int n => .ok (int n)
  | float x => .ok (float x)
  | v => do .ok (wholeOrFloat (← v.toFloat))

/-- The words for false, and anything equal to zero or without parts, are false. -/
def toBoolean (v : Value) : Bool :=
  match v with
  | text "false" | text "0" => false
  | v => if v.equal (int 0) then false else v.isTruthy

/-- The point at the first two parts, taken as numbers. -/
def toLocation (v : Value) : Except Error Value := do
  let x ← (← v.item 0).toFloat
  let y ← (← v.item 1).toFloat
  .ok (ofEntries [("type", text "Point"), ("coordinates", list [float x, float y])])

def readJson (s : String) : Except Error Value :=
  (Json.read s).mapError .notJson

/-- The value as one of a kind. -/
def cast (kind : CastKind) (v : Value) : Except Error Value :=
  match kind with
  | .string => .ok (text (if v.isEmpty then "" else Text.trim v.display))
  | .integer => if v.isEmpty then .ok (int 0) else do .ok (int (← v.toInteger))
  | .float => if v.isEmpty then .ok (float 0) else do .ok (float (← v.toFloat))
  | .number => if v.isEmpty then .ok (int 0) else v.toNumber
  | .boolean => .ok (bool (!v.isEmpty && v.toBoolean))
  | .date => v.parseMoment
  | .location => if v.isEmpty then .ok null else v.toLocation
  | .object =>
    if v.isEmpty then .ok (dict [])
    else
      match v with
      | text s => .ok ((readJson s).toOption.getD (dict []))
      | v => .ok v
  | .array =>
    if v.isEmpty then .ok (list [])
    else
      match v with
      | text s => readJson s
      | v => .ok v
  | .any => .ok v

end Value

end DocumentMapper
