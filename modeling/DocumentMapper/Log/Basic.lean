import DocumentMapper.Error
import DocumentMapper.Json.Writer

/-!
# Log records

A record has a level and a message and comes from a named logger. Levels are told apart by their
weight alone, and five of them have a name. A message may carry a context, a dictionary written
behind it as JSON.
-/

namespace DocumentMapper.Log

structure Level where
  weight : Int
  deriving DecidableEq, Repr, Inhabited

namespace Level

def debug : Level := ⟨10⟩
def info : Level := ⟨20⟩
def warning : Level := ⟨30⟩
def error : Level := ⟨40⟩
def critical : Level := ⟨50⟩

/-- The weight of nothing in particular. -/
def unset : Level := ⟨0⟩

/-- The levels that have a name. -/
def names : List (Level × String) :=
  [(unset, "NOTSET"), (debug, "DEBUG"), (info, "INFO"), (warning, "WARNING"), (error, "ERROR"),
    (critical, "CRITICAL")]

def name (level : Level) : String :=
  (names.lookup level).getD ("Level " ++ toString level.weight)

def ofName? (s : String) : Option Level :=
  (names.find? fun (_, name) => name == s).map (·.1)

/-- Whether a record of a level passes a bar. -/
def reaches (level bar : Level) : Bool :=
  bar.weight ≤ level.weight

end Level

structure Record where
  logger : String
  level : Level
  message : String
  deriving DecidableEq, Repr, Inhabited

/-- The message with its context behind it, if the context holds anything. -/
def withContext (message : String) (context : Value) : Except Error String :=
  if context.isTruthy then
    match Json.write context with
    | .ok text => .ok (message ++ " | Context: " ++ text)
    | .error key => .error (.misuse (.jsonKey key.qualifiedKind))
  else .ok message

end DocumentMapper.Log
