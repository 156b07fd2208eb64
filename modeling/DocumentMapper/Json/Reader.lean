import DocumentMapper.Document
import DocumentMapper.Number.Numeral

/-!
# Reading JSON

The whole text must be one JSON value with blanks around it. Three words for floating-point values
that JSON lacks are read too. Of a key that occurs twice the first place and the last value count.
A fault names what was expected and where: line and column from one, and characters from the start.
-/

namespace DocumentMapper.Json

open Number

inductive Problem where
  | value
  | propertyName
  | colon
  | comma
  | unterminated
  | control
  | escape
  | unitEscape
  | extra
  | byteOrderMark
  deriving DecidableEq, Repr

/-- Why a text is not a JSON value. -/
inductive Fault where
  | malformed (problem : Problem) (line column position : Nat)
  | integerTooLong (digits : Nat)
  deriving DecidableEq, Repr

/-- A problem and the number of characters left where it was met. -/
inductive Stop where
  | at (problem : Problem) (left : Nat)
  | integerTooLong (digits : Nat)

def isSpace (c : Char) : Bool :=
  c == ' ' || c == '\t' || c == '\n' || c == '\r'

def skipSpace (cs : List Char) : List Char :=
  cs.dropWhile isSpace

def hexValue? (c : Char) : Option Nat :=
  if '0' ≤ c ∧ c ≤ '9' then some (c.toNat - 48)
  else if 'a' ≤ c ∧ c ≤ 'f' then some (c.toNat - 87)
  else if 'A' ≤ c ∧ c ≤ 'F' then some (c.toNat - 55)
  else none

/-- The UTF-16 unit written by four hexadecimal digits. -/
def unit? (cs : List Char) : Option Nat :=
  match cs.mapM hexValue? with
  | some [a, b, c, d] => some (((a * 16 + b) * 16 + c) * 16 + d)
  | _ => none

/-- The character that stands after a backslash, other than by its number. -/
def escaped? (c : Char) : Option Char :=
  if c = '"' ∨ c = '\\' ∨ c = '/' then some c
  else if c = 'b' then some (Char.ofNat 8)
  else if c = 'f' then some (Char.ofNat 12)
  else if c = 'n' then some '\n'
  else if c = 'r' then some '\r'
  else if c = 't' then some '\t'
  else none

/-- The character of one unit; half of a pair on its own becomes the replacement character. -/
def unitChar (unit : Nat) : Char :=
  if 0xd800 ≤ unit ∧ unit ≤ 0xdfff then Char.ofNat 0xfffd else Char.ofNat unit

/-- A character given by its unit or pair of units; `cs` stands after the first `u`. -/
def readUnits (cs : List Char) : Except Stop (Char × List Char) :=
  let fault := Stop.at .unitEscape (cs.length + 1)
  if cs.length ≤ 4 then .error fault
  else
    match unit? (cs.take 4) with
    | none => .error fault
    | some high =>
      let rest := cs.drop 4
      match rest with
      | '\\' :: 'u' :: more =>
        if 0xd800 ≤ high ∧ high ≤ 0xdbff ∧ 4 < more.length then
          match unit? (more.take 4) with
          | none => .error (.at .unitEscape (more.length + 1))
          | some low =>
            if 0xdc00 ≤ low ∧ low ≤ 0xdfff then
              .ok (Char.ofNat (0x10000 + (high - 0xd800) * 0x400 + (low - 0xdc00)), more.drop 4)
            else .ok (unitChar high, rest)
        else .ok (unitChar high, rest)
      | _ => .ok (unitChar high, rest)

/-- The characters up to the closing quote; `opening` characters were left at the opening one. -/
def readChars (opening : Nat) : Nat → List Char → List Char → Except Stop (String × List Char)
  | 0, _, _ => .error (.at .unterminated opening)
  | _, _, [] => .error (.at .unterminated opening)
  | fuel + 1, read, c :: rest =>
    if c = '"' then .ok (String.ofList read.reverse, rest)
    else if c = '\\' then
      match rest with
      | [] => .error (.at .unterminated opening)
      | 'u' :: units => do
        let (char, rest) ← readUnits units
        readChars opening fuel (char :: read) rest
      | e :: rest' =>
        match escaped? e with
        | some char => readChars opening fuel (char :: read) rest'
        | none => .error (.at .escape (rest.length + 1))
    else if c.toNat ≤ 0x1f then .error (.at .control (rest.length + 1))
    else readChars opening fuel (c :: read) rest

/-- A text; `cs` stands after the opening quote. -/
def readText (cs : List Char) : Except Stop (String × List Char) :=
  readChars (cs.length + 1) (cs.length + 1) [] cs

def isAsciiDigit (c : Char) : Bool :=
  '0' ≤ c && c ≤ '9'

/-- The fraction at the front: a point and at least one digit. -/
def splitFraction (cs : List Char) : List Char × List Char :=
  match cs with
  | '.' :: rest =>
    if (rest.takeWhile isAsciiDigit).isEmpty then ([], cs)
    else ('.' :: rest.takeWhile isAsciiDigit, rest.dropWhile isAsciiDigit)
  | _ => ([], cs)

/-- The exponent at the front: its mark, perhaps a sign, and at least one digit. -/
def splitExponent (cs : List Char) : List Char × List Char :=
  match cs with
  | e :: rest =>
    if e = 'e' ∨ e = 'E' then
      let (sign, digits) := match rest with
        | '+' :: tail => (['+'], tail)
        | '-' :: tail => (['-'], tail)
        | tail => ([], tail)
      if (digits.takeWhile isAsciiDigit).isEmpty then ([], cs)
      else (e :: sign ++ digits.takeWhile isAsciiDigit, digits.dropWhile isAsciiDigit)
    else ([], cs)
  | [] => ([], [])

/-- The digits of the whole part: a single zero, or a run that does not start with one. -/
def splitWhole : List Char → List Char × List Char
  | '0' :: rest => (['0'], rest)
  | cs => (cs.takeWhile isAsciiDigit, cs.dropWhile isAsciiDigit)

def readNumeral (cs : List Char) : Except Stop (Value × List Char) :=
  let (negative, body) := match cs with
    | '-' :: rest => (true, rest)
    | _ => (false, cs)
  let (whole, rest) := splitWhole body
  if whole.isEmpty then .error (.at .value cs.length)
  else
    let (fraction, rest) := splitFraction rest
    let (exponent, rest) := splitExponent rest
    if fraction.isEmpty && exponent.isEmpty then
      if maxIntegerDigits < whole.length then .error (.integerTooLong whole.length)
      else
        let n : Int := natOfDigits (whole.map fun c => c.toNat - 48)
        .ok (.int (if negative then -n else n), rest)
    else
      .ok (.float ((decimal? negative (whole ++ fraction ++ exponent)).getD notANumber), rest)

/-- The words that are values of their own. -/
def words : List (List Char × Value) := [
  ("null".toList, .null), ("true".toList, .bool true), ("false".toList, .bool false),
  ("NaN".toList, .float notANumber), ("Infinity".toList, .float (infinity false)),
  ("-Infinity".toList, .float (infinity true))]

mutual

/-- The value at the front; `fuel` bounds how often readers call each other. -/
def readValue : Nat → List Char → Except Stop (Value × List Char)
  | 0, cs => .error (.at .value cs.length)
  | _, [] => .error (.at .value 0)
  | fuel + 1, c :: rest =>
    if c = '"' then do
      let (s, rest) ← readText rest
      .ok (.text s, rest)
    else if c = '[' then
      match skipSpace rest with
      | ']' :: rest => .ok (.list [], rest)
      | rest => do
        let (items, rest) ← readItems fuel rest
        .ok (.list items, rest)
    else if c = '\x7b' then
      match skipSpace rest with
      | '\x7d' :: rest => .ok (.dict [], rest)
      | rest => do
        let (entries, rest) ← readMembers fuel [] rest
        .ok (.dict entries, rest)
    else
      match words.find? fun (word, _) => word.isPrefixOf (c :: rest) with
      | some (word, v) => .ok (v, (c :: rest).drop word.length)
      | none => readNumeral (c :: rest)

def readItems : Nat → List Char → Except Stop (List Value × List Char)
  | 0, cs => .error (.at .value cs.length)
  | fuel + 1, cs => do
    let (v, rest) ← readValue fuel cs
    match skipSpace rest with
    | ']' :: rest => .ok ([v], rest)
    | ',' :: rest =>
      let (items, rest) ← readItems fuel (skipSpace rest)
      .ok (v :: items, rest)
    | rest => .error (.at .comma rest.length)

def readMembers : Nat → Document → List Char → Except Stop (Document × List Char)
  | 0, _, cs => .error (.at .value cs.length)
  | fuel + 1, entries, cs =>
    match cs with
    | '"' :: rest => do
      let (key, rest) ← readText rest
      match skipSpace rest with
      | ':' :: rest =>
        let (v, rest) ← readValue fuel (skipSpace rest)
        let entries := entries.putField key v
        match skipSpace rest with
        | '\x7d' :: rest => .ok (entries, rest)
        | ',' :: rest => readMembers fuel entries (skipSpace rest)
        | rest => .error (.at .comma rest.length)
      | rest => .error (.at .colon rest.length)
    | _ => .error (.at .propertyName cs.length)

end

/-- The fault at a distance from the end of the text. -/
def faultAt (cs : List Char) (problem : Problem) (left : Nat) : Fault :=
  let position := cs.length - left
  let before := cs.take position
  let column := (before.reverse.takeWhile (· != '\n')).length + 1
  .malformed problem (before.count '\n' + 1) column position

def read (s : String) : Except Fault Value :=
  let cs := s.toList
  if cs.head? = some (Char.ofNat 0xfeff) then .error (faultAt cs .byteOrderMark cs.length)
  else
    match readValue (2 * cs.length + 2) (skipSpace cs) with
    | .error (.at problem left) => .error (faultAt cs problem left)
    | .error (.integerTooLong digits) => .error (.integerTooLong digits)
    | .ok (v, rest) =>
      match skipSpace rest with
      | [] => .ok v
      | rest => .error (faultAt cs .extra rest.length)

end DocumentMapper.Json
