import DocumentMapper.Calendar.Moment
import DocumentMapper.Number.Binary

/-!
# Values

Documents, filters, pipelines and their parts are all made of values. Dictionaries keep the order
in which their keys were first written, and a key may be any value that is not itself changeable;
in stored documents it is always a text. A record inside a value is the record as it was when it
was put there.
-/

namespace DocumentMapper

/-- A compiled search pattern: its source and the flags that change how it matches. -/
structure Pattern where
  source : String
  ignoreCase : Bool
  multiline : Bool
  dotAll : Bool
  verbose : Bool
  ascii : Bool
  deriving DecidableEq, Repr, Inhabited

/-- A pattern without flags. -/
def Pattern.plain (source : String) : Pattern :=
  ⟨source, false, false, false, false, false⟩

/-- An identifier that the database gives to a stored document, as hexadecimal digits. -/
structure ObjectId where
  digits : String
  deriving DecidableEq, Repr, Inhabited

inductive Value where
  | null
  | bool (b : Bool)
  | int (n : Int)
  | float (x : Float)
  | text (s : String)
  | moment (m : Calendar.Moment)
  | pattern (p : Pattern)
  | objectId (id : ObjectId)
  | list (items : List Value)
  | tuple (items : List Value)
  | dict (entries : List (Value × Value))
  | stage (name : String) (payload : Value)
  /-- A model itself, by name. -/
  | model (name : String)
  /-- A record of a model: its data, its data when last stored, and whether it was restored. -/
  | record (model : String) (data stored : List (Value × Value)) (restored : Bool)
  deriving Inhabited

/-- The entries of a dictionary in the order of their keys. -/
abbrev Document := List (Value × Value)

namespace Value

/-- The kind of a value as messages about wrong arguments name it. -/
def kind : Value → String
  | null => "NoneType"
  | bool _ => "bool"
  | int _ => "int"
  | float _ => "float"
  | text _ => "str"
  | moment _ => "datetime"
  | pattern _ => "Pattern"
  | objectId _ => "ObjectId"
  | list _ => "list"
  | tuple _ => "tuple"
  | dict _ => "dict"
  | stage _ _ => "Stage"
  | model _ => "type"
  | record name _ _ _ => name

/-- The kind of a value with the name of the library it comes from, as conversions name it. -/
def qualifiedKind : Value → String
  | moment _ => "datetime.datetime"
  | pattern _ => "re.Pattern"
  | v => v.kind

/-- Whether a value counts as present: not null, false, zero or empty. -/
def isTruthy : Value → Bool
  | null => false
  | bool b => b
  | int n => n != 0
  | float x => !Number.isZero x
  | text s => !s.isEmpty
  | list items | tuple items => !items.isEmpty
  | dict entries => !entries.isEmpty
  | _ => true

/-- The value, or another one in its place if it does not count as present. -/
def orElse (v fallback : Value) : Value :=
  if v.isTruthy then v else fallback

def isNull : Value → Bool
  | null => true
  | _ => false

def isText : Value → Bool
  | text _ => true
  | _ => false

def isDict : Value → Bool
  | dict _ => true
  | _ => false

def isList : Value → Bool
  | list _ => true
  | _ => false

/-- A truth value as the number it counts as. -/
def ofTruth (b : Bool) : Int :=
  if b then 1 else 0

/-- The dictionary of entries whose keys are texts. -/
def ofEntries (entries : List (String × Value)) : Value :=
  dict (entries.map fun (k, v) => (text k, v))

/-- A dictionary of one entry with a text for a key. -/
def single (key : String) (v : Value) : Value :=
  dict [(text key, v)]

end Value

/-- Pairs of hexadecimal digits, with blanks allowed between the pairs. -/
def hexPairs? : List Char → Option (List Char)
  | [] => some []
  | [c] => if isSpace c then some [] else none
  | a :: b :: rest =>
    if isSpace a then hexPairs? (b :: rest)
    else if isHex a && isHex b then (hexPairs? rest).map fun ds => a.toLower :: b.toLower :: ds
    else none
where
  isSpace (c : Char) : Bool := c == ' ' || (9 ≤ c.toNat && c.toNat ≤ 13)
  isHex (c : Char) : Bool := c.isDigit || ('a' ≤ c && c ≤ 'f') || ('A' ≤ c && c ≤ 'F')

/-- The identifier written by a text of 24 characters. -/
def ObjectId.ofText? (s : String) : Option ObjectId :=
  if s.length = 24 then (hexPairs? s.toList).map fun ds => ⟨String.ofList ds⟩ else none

end DocumentMapper
