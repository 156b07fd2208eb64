import DocumentMapper.Number.Numeral
import DocumentMapper.Text.Blank
import DocumentMapper.Value.Basic

/-!
# Flat YAML

The part of YAML that a settings file uses: a block of entries, one on each line, or a block of
items, or one scalar. A scalar is plain or between single quotes, and an item may be a short list
between brackets. Blank lines and comments count for nothing.
-/

namespace DocumentMapper.Yaml

open Text

/-- The characters of a line before a comment. A comment starts the line or follows a blank. -/
def dropComment : List Char → List Char
  | [] => []
  | ' ' :: '#' :: _ => []
  | c :: rest => c :: dropComment rest

/-- The content of a line, nothing if it has none. -/
def content? (line : List Char) : Option (List Char) :=
  match trimBoth isBlank (dropComment (' ' :: line)) with
  | [] => none
  | cs => some cs

/-- The characters between line breaks. -/
def lines : List Char → List (List Char)
  | [] => [[]]
  | c :: rest =>
    if c = '\n' then [] :: lines rest
    else
      match lines rest with
      | line :: more => (c :: line) :: more
      | [] => [[c]]

def isNullWord (s : String) : Bool :=
  ["", "~", "null", "Null", "NULL"].contains s

/-- The truth value that a word stands for. -/
def truth? (s : String) : Option Bool :=
  if ["true", "True", "TRUE", "yes", "Yes", "YES", "on", "On", "ON"].contains s then some true
  else if ["false", "False", "FALSE", "no", "No", "NO", "off", "Off", "OFF"].contains s then
    some false
  else none

/-- An integer has a sign or none and digits, of which the first is zero only if it stands
alone. -/
def integer? (s : String) : Option Int :=
  let digits := (Number.takeSign s.toList).2
  let plain := digits.all Char.isDigit && (digits.head? != some '0' || digits.length == 1)
  if plain then (Number.readInteger s).toOption else none

/-- A fraction has digits on both sides of its point. -/
def fraction? (s : String) : Option Float :=
  let digits := (Number.takeSign s.toList).2
  let whole := digits.takeWhile Char.isDigit
  match digits.dropWhile Char.isDigit with
  | '.' :: part =>
    if !whole.isEmpty && part.all Char.isDigit then Number.readNumber? s else none
  | _ => none

/-- What a plain scalar stands for: null, a truth value, a number, or else its own text. -/
def plain (s : String) : Value :=
  if isNullWord s then .null
  else
    match truth? s, integer? s, fraction? s with
    | some b, _, _ => .bool b
    | none, some n, _ => .int n
    | none, none, some x => .float x
    | none, none, none => .text s

/-- Inside quotes a quote is written twice. -/
def unquoted : List Char → List Char
  | [] => []
  | [c] => [c]
  | a :: b :: rest =>
    if a.toNat = 39 ∧ b.toNat = 39 then a :: unquoted rest else a :: unquoted (b :: rest)

/-- The characters between two of them, if the text stands between these. -/
def between? (opening closing : Char) (cs : List Char) : Option (List Char) :=
  match cs with
  | c :: rest =>
    if c = opening ∧ rest.getLast? = some closing then some rest.dropLast else none
  | [] => none

/-- A scalar between quotes or plain. -/
def scalar (cs : List Char) : Value :=
  match between? (Char.ofNat 39) (Char.ofNat 39) cs with
  | some inner => .text (String.ofList (unquoted inner))
  | none => plain (String.ofList cs)

/-- The characters between commas. -/
def splitCommas : List Char → List (List Char)
  | [] => [[]]
  | c :: rest =>
    if c = ',' then [] :: splitCommas rest
    else
      match splitCommas rest with
      | part :: more => (c :: part) :: more
      | [] => [[c]]

/-- A list between brackets, or a scalar. -/
def item (cs : List Char) : Value :=
  match between? '[' ']' cs with
  | some inner =>
    if inner.all isBlank then .list []
    else .list ((splitCommas inner).map fun part => scalar (trimBoth isBlank part))
  | none => scalar cs

/-- The key and the value of an entry. A colon ends the key where a blank or nothing follows. -/
def keyed? : List Char → Option (List Char × List Char)
  | [] => none
  | ':' :: [] => some ([], [])
  | ':' :: ' ' :: rest => some ([], trimBoth isBlank rest)
  | c :: rest => (keyed? rest).map fun (key, v) => (c :: key, v)

/-- The value of an item of a block. -/
def dashed? : List Char → Option (List Char)
  | '-' :: ' ' :: rest => some (trimBoth isBlank rest)
  | ['-'] => some []
  | _ => none

/-- The value of the lines of a file that have a content. -/
def ofLines (ls : List (List Char)) : Value :=
  match ls.mapM keyed?, ls.mapM dashed?, ls with
  | _, _, [] => .null
  | some entries, _, _ => .dict (entries.map fun (k, v) => (scalar k, item v))
  | none, some items, _ => .list (items.map item)
  | none, none, ls => plain (String.ofList (List.intercalate [' '] ls))

/-- The value that a file holds. -/
def read (text : String) : Value :=
  ofLines ((lines text.toList).filterMap content?)

end DocumentMapper.Yaml
