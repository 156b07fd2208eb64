import DocumentMapper.Value.Display
import DocumentMapper.Json.Reader

/-!
# Errors

An error names its cause and keeps what the caller passed; `Error.message` is the one place where
causes get their wording. Values are dynamic, so one family, `Misuse`, says that a value of some
kind was used in a way that its kind does not allow.
-/

namespace DocumentMapper

open Calendar

/-- A value used in a way that its kind does not allow. Kinds are given by name. -/
inductive Misuse where
  | member (kind name : String)
  | modelMember (model name : String)
  | subscript (kind : String)
  | index (container kind : String)
  | itemAssignment (kind : String)
  | operands (operator left right : String)
  | concatenation (left right : String)
  | repetition (kind : String)
  | comparison (operator left right : String)
  | unhashable (kind : String)
  | iteration (kind : String)
  | length (kind : String)
  | mapping (kind : String)
  /-- The element at a position should be a pair and is no sequence. -/
  | pair (position : Nat)
  | toNumber (kind : String)
  | toInteger (kind : String)
  | call (kind : String)
  | arguments (callee : String)
  | jsonKey (kind : String)
  deriving DecidableEq, Repr

namespace Misuse

def message : Misuse → String
  | member kind name => s!"'{kind}' object has no attribute '{name}'"
  | modelMember model name => s!"type object '{model}' has no attribute '{name}'"
  | subscript kind => s!"'{kind}' object is not subscriptable"
  | index container kind => s!"{container} indices must be integers or slices, not {kind}"
  | itemAssignment kind => s!"'{kind}' object does not support item assignment"
  | operands operator left right =>
    s!"unsupported operand type(s) for {operator}: '{left}' and '{right}'"
  | concatenation left right => s!"can only concatenate {left} (not \"{right}\") to {left}"
  | repetition kind => s!"can't multiply sequence by non-int of type '{kind}'"
  | comparison operator left right =>
    s!"'{operator}' not supported between instances of '{left}' and '{right}'"
  | unhashable kind => s!"unhashable type: '{kind}'"
  | iteration kind => s!"'{kind}' object is not iterable"
  | length kind => s!"object of type '{kind}' has no len()"
  | mapping kind => s!"'{kind}' object is not a mapping"
  | pair position =>
    s!"cannot convert dictionary update sequence element #{position} to a sequence"
  | toNumber kind => s!"float() argument must be a string or a real number, not '{kind}'"
  | toInteger kind =>
    s!"int() argument must be a string, a bytes-like object or a real number, not '{kind}'"
  | call kind => s!"'{kind}' object is not callable"
  | arguments callee => s!"{callee}() got arguments that do not fit its parameters"
  | jsonKey kind => s!"keys must be str, int, float, bool or None, not {kind}"

end Misuse

inductive Error where
  /-- A filter names an operator that does not exist. -/
  | unknownOperator (given : Value)
  /-- A range operator needs a pair of bounds. -/
  | rangeExpected (operator : String) (given : Value)
  /-- A filter given alone must be a dictionary. -/
  | filterExpected (kind : String)
  /-- A filter clause has one, two or three parts. -/
  | clauseArguments (count : Nat)
  /-- An alternative given as a sequence must be a pair. -/
  | pairExpected (given : Value)
  | alternativeExpected (kind : String)
  | sortDirection (given : Value)
  | rawStageShape (given : Value)
  | rawStageOperator (given : Value)
  | pageBounds (page limit : Value)
  | chunkBound (limit : Value)
  /-- Sampling needs a size. -/
  | missingLimit
  | relationNotFound (name model : String)
  /-- A query without an executor cannot run. -/
  | detachedQuery (collection : String)
  /-- A model without an executor cannot store or find records. -/
  | unboundModel (model : String)
  | connectionFailed (reason : String)
  | cannotCast (column : String) (given : Value) (type : String) (reason : Error)
  | noColumns (model : String)
  | perPageNotInteger (given : Value)
  | perPageNotPositive (given : Int)
  | notAMapping (path : String)
  /-- Copying a record of `source` into one record of `into` failed and ended the rule. -/
  | syncAborted (source : String) (id : Value) (into : String) (target : Value) (reason : Error)
  /-- Some records of `into` could not be treated; each is given by its id, with the reason. -/
  | syncFailed (action source : String) (id : Value) (into : String)
      (failures : List (Value × Error))
  | unknownEvent (given : Value)
  /-- A cast of the caller's own refused a value. -/
  | rejected (reason : String)
  /-- A listener, another callback or the database reported a failure. -/
  | raised (reason : String)
  | notAnInteger (text : String) (fault : Number.IntegerFault)
  | notANumber (text : String)
  | notAMoment (text : String) (fault : IsoFault)
  | notAUnixTime (fault : UnixFault)
  | undefinedUnixTime
  | notJson (fault : Json.Fault)
  | undefinedInteger
  | infiniteInteger
  | integerTooLarge
  | quotientTooLarge
  /-- A moment has no reading in UTC. -/
  | dateRange
  | missingKey (key : Value)
  /-- The element at a position should be a pair and has another length. -/
  | pairLength (position length : Nat)
  | indexRange (container : String)
  | invalidPattern
  /-- Records kept changing records beyond the depth allowed. -/
  | cascadeTooDeep
  | misuse (fault : Misuse)
  deriving Inhabited

/-- What is wrong with a text that should be a moment. -/
def isoMessage (text : String) : IsoFault → String
  | .malformed => "Invalid isoformat string: " ++ Text.quoted text
  | .year y => s!"year {y} is out of range"
  | .month => "month must be in 1..12"
  | .day => "day is out of range for month"
  | .hour => "hour must be in 0..23"
  | .minute => "minute must be in 0..59"
  | .second => "second must be in 0..59"
  | .offset micro =>
    "offset must be a timedelta strictly between -timedelta(hours=24) and timedelta(hours=24), not "
      ++ durationLiteral micro ++ "."

def unixMessage : UnixFault → String
  | .beyondClock => "timestamp out of range for platform time_t"
  | .beyondCalendar => "[Errno 75] Value too large for defined data type"
  | .year y => s!"year {y} is out of range"

namespace Json

def Problem.message : Problem → String
  | value => "Expecting value"
  | propertyName => "Expecting property name enclosed in double quotes"
  | colon => "Expecting ':' delimiter"
  | comma => "Expecting ',' delimiter"
  | unterminated => "Unterminated string starting at"
  | control => "Invalid control character at"
  | escape => "Invalid \\escape"
  | unitEscape => "Invalid \\uXXXX escape"
  | extra => "Extra data"
  | byteOrderMark => "Unexpected UTF-8 BOM (decode using utf-8-sig)"

end Json

/-- An integer numeral has more digits than are read. -/
def digitLimitMessage (digits : Nat) : String :=
  s!"Exceeds the limit ({Number.maxIntegerDigits} digits) for integer string conversion: "
    ++ s!"value has {digits} digits; use sys.set_int_max_str_digits() to increase the limit"

def Json.Fault.message : Json.Fault → String
  | malformed problem line column position =>
    s!"{problem.message}: line {line} column {column} (char {position})"
  | integerTooLong digits => digitLimitMessage digits

namespace Error

/-- Whether an error says that a value has the wrong kind or the wrong form for what it is to
become. A number beyond its range, a key or position that is not there and a missing member are
no errors of this sort. -/
def refusesValue : Error → Bool
  | misuse (.member ..) | misuse (.modelMember ..) => false
  | misuse _ => true
  | unknownEvent _ | rejected _ | pairLength .. => true
  | notAnInteger .. | notANumber _ | notAMoment .. | notJson _ => true
  | notAUnixTime (.year _) => true
  | undefinedUnixTime | undefinedInteger => true
  | _ => false

def message : Error → String
  | unknownOperator given => "Unknown where operator: " ++ given.literal
  | rangeExpected operator given =>
    operator ++ " expects a [min, max] pair, got " ++ given.literal
  | filterExpected kind => "Single argument where() expects a filter dict, got " ++ kind
  | clauseArguments count => s!"where() takes 1 to 3 arguments, got {count}"
  | pairExpected given => "or_where() pairs must be (column, value), got " ++ given.literal
  | alternativeExpected kind => "or_where() expects pairs or dicts, got " ++ kind
  | sortDirection given => "Sort direction must be 'asc' or 'desc', got " ++ given.literal
  | rawStageShape given => "Raw stage must be a single-key dict, got " ++ given.literal
  | rawStageOperator given => "Raw stage operator must start with '$', got " ++ given.literal
  | pageBounds page limit =>
    "paginate() needs page >= 1 and limit >= 1, got page=" ++ page.display
      ++ " limit=" ++ limit.display
  | chunkBound limit => "chunk() needs limit >= 1, got " ++ limit.display
  | missingLimit => "You must provide a limit when using random() or use limit() pipeline"
  | relationNotFound name model => s!"Relation {name} not found on {model}"
  | detachedQuery collection => "No query executor configured for collection " ++ collection
  | unboundModel model => s!"No query executor configured for {model}; call Model.use(executor)"
  | connectionFailed reason => "Failed to connect to MongoDB: " ++ reason
  | cannotCast column given type reason =>
    s!"Cannot cast {column}=" ++ given.literal ++ s!" to {type}: " ++ reason.message
  | noColumns model => s!"Sync rule for {model} needs at least one column"
  | perPageNotInteger given => "per_page must be an integer, got " ++ given.literal
  | perPageNotPositive given => s!"per_page must be positive, got {given}"
  | notAMapping path => s!"Configuration file {path} must contain a mapping"
  | syncAborted source id into _ reason =>
    s!"Syncing {source} " ++ id.display ++ s!" into {into} aborted: " ++ reason.message
  | syncFailed action source id into failures =>
    s!"Failed to {action} {failures.length} {into} record(s) embedding {source} " ++ id.display
  | unknownEvent given => "Unknown model event: " ++ given.display
  | rejected reason | raised reason => reason
  | notAnInteger text .malformed =>
    "invalid literal for int() with base 10: "
      ++ String.ofList ((Text.quotedChars text.toList).take 200)
  | notAnInteger _ (.tooLong digits) => digitLimitMessage digits
  | notANumber text => "could not convert string to float: " ++ Text.quoted text
  | notAMoment text fault => isoMessage text fault
  | notAUnixTime fault => unixMessage fault
  | undefinedUnixTime => "Invalid value NaN (not a number)"
  | notJson fault => fault.message
  | undefinedInteger => "cannot convert float NaN to integer"
  | infiniteInteger => "cannot convert float infinity to integer"
  | integerTooLarge => "int too large to convert to float"
  | quotientTooLarge => "integer division result too large for a float"
  | dateRange => "date value out of range"
  | missingKey key => key.literal
  | pairLength position length =>
    s!"dictionary update sequence element #{position} has length {length}; 2 is required"
  | indexRange container => s!"{container} out of range"
  | invalidPattern => "invalid regular expression"
  | cascadeTooDeep => "maximum recursion depth exceeded"
  | misuse fault => fault.message

end Error

end DocumentMapper
