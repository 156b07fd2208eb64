import DocumentMapper.Value.Basic
import DocumentMapper.Text.Quoted
import DocumentMapper.Number.Shortest
import DocumentMapper.Calendar.Iso

/-!
# Values as text

`literal` writes a value the way a program would spell it, texts in quotes; `display` writes it
for people, so a text stands for itself, a moment is its ISO form and an identifier its digits.
Inside larger values the literal form is used throughout.
-/

namespace DocumentMapper

open Text Number Calendar

/-- Days, seconds and microseconds of a length of time, those that are not zero. -/
def durationLiteral (micro : Int) : String :=
  let days := micro.fdiv Calendar.day
  let rest := (micro.fmod Calendar.day).toNat
  let parts := [("days", days), ("seconds", ((rest / second : Nat) : Int)),
    ("microseconds", ((rest % second : Nat) : Int))]
  let shown := (parts.filter fun (_, n) => n != 0).map fun (name, n) => name ++ "=" ++ toString n
  "datetime.timedelta(" ++ (if shown.isEmpty then "0" else ", ".intercalate shown) ++ ")"

/-- The clock of a moment: none when its distance from UTC is unknown. -/
def zoneLiteral : Option Int → String
  | none => ""
  | some 0 => ", tzinfo=datetime.timezone.utc"
  | some o => ", tzinfo=datetime.timezone(" ++ durationLiteral o ++ ")"

/-- Seconds and microseconds are left out when they are zero from the end on. -/
def Calendar.Moment.literal (m : Moment) : String :=
  let fields := [m.date.year, m.date.month, m.date.day, m.hour, m.minute] ++
    (if m.seconds = 0 ∧ m.microsecond = 0 then [] else [m.seconds]) ++
    (if m.microsecond = 0 then [] else [m.microsecond])
  "datetime.datetime(" ++ ", ".intercalate (fields.map toString) ++ zoneLiteral m.offset ++ ")"

/-- The source is quoted and cut after two hundred characters; then come the flags. -/
def Pattern.literal (p : Pattern) : String :=
  let source := String.ofList ((quotedChars p.source.toList).take 200)
  let flags := [(p.ignoreCase, "re.IGNORECASE"), (p.multiline, "re.MULTILINE"),
    (p.dotAll, "re.DOTALL"), (p.verbose, "re.VERBOSE"), (p.ascii, "re.ASCII")]
  let shown := (flags.filter (·.1)).map (·.2)
  "re.compile(" ++ source ++ (if shown.isEmpty then "" else ", " ++ "|".intercalate shown) ++ ")"

namespace Value

/-- The text of a value that has no parts. -/
def scalarLiteral : Value → String
  | null => "None"
  | bool b => if b then "True" else "False"
  | int n => toString n
  | float x => standard.text x
  | text s => quoted s
  | moment m => m.literal
  | pattern p => p.literal
  | objectId id => "ObjectId('" ++ id.digits ++ "')"
  | model name => "<class '" ++ name ++ "'>"
  | _ => ""

mutual

def literal : Value → String
  | list items => "[" ++ ", ".intercalate (itemLiterals items) ++ "]"
  | tuple items =>
    match itemLiterals items with
    | [only] => "(" ++ only ++ ",)"
    | parts => "(" ++ ", ".intercalate parts ++ ")"
  | dict entries => "\x7b" ++ ", ".intercalate (entryLiterals entries) ++ "\x7d"
  | stage name payload => "Stage($" ++ name ++ ": " ++ literal payload ++ ")"
  | record name data _ _ => "<" ++ name ++ " id=" ++ idDisplay data ++ ">"
  | v => scalarLiteral v

def itemLiterals : List Value → List String
  | [] => []
  | v :: rest => literal v :: itemLiterals rest

def entryLiterals : List (Value × Value) → List String
  | [] => []
  | (k, v) :: rest => (literal k ++ ": " ++ literal v) :: entryLiterals rest

/-- The identity of a record for display, `None` when its data holds none. -/
def idDisplay : List (Value × Value) → String
  | [] => "None"
  | (text "id", v) :: _ =>
    match v with
    | text s => s
    | moment m => m.spaced
    | objectId id => id.digits
    | other => literal other
  | (_, _) :: rest => idDisplay rest

end

def display : Value → String
  | text s => s
  | moment m => m.spaced
  | objectId id => id.digits
  | v => v.literal

end Value

end DocumentMapper
