import DocumentMapper.Value.Access

/-!
# Dotted paths

A path is a list of segments, written with points between them. A segment names a key of a
dictionary, or, when it passes the digit test, a position of a list.

Reading gives nothing where a segment leads nowhere. Writing makes dictionaries on the way where
there is neither a dictionary nor a list, and refuses a list position that does not exist; it
fails before anything is changed. Erasing removes the key of a dictionary and nothing else.
-/

namespace DocumentMapper

/-- The segments of a path, outermost first. -/
abbrev Path := List String

namespace Path

/-- The characters between points. -/
def splitPoints : List Char → List (List Char)
  | [] => [[]]
  | c :: rest =>
    if c = '.' then [] :: splitPoints rest
    else
      match splitPoints rest with
      | segment :: more => (c :: segment) :: more
      | [] => [[c]]

def ofText (s : String) : Path :=
  (splitPoints s.toList).map String.ofList

/-- A value used as a path must be a text. -/
def ofValue : Value → Except Error Path
  | .text s => .ok (ofText s)
  | v => .error (.misuse (.member v.qualifiedKind "split"))

/-- The list position named by a segment that passes the digit test. -/
def position (key : String) : Except Error Nat :=
  match key.toList.mapM Text.decimalValue? with
  | some digits =>
    if Number.maxIntegerDigits < digits.length then
      .error (.notAnInteger key (.tooLong digits.length))
    else .ok (Number.natOfDigits digits)
  | none => .error (.notAnInteger key .malformed)

/-- What one segment leads to. -/
def child? (v : Value) (key : String) : Except Error (Option Value) :=
  match v with
  | .dict entries => .ok (Document.field? entries key)
  | .list items =>
    if Text.isDigits key then do .ok (items[← position key]?) else .ok none
  | _ => .ok none

/-- The value at a path. -/
def get? : Value → Path → Except Error (Option Value)
  | v, [] => .ok (some v)
  | v, key :: rest => do
    match ← child? v key with
    | some c => get? c rest
    | none => .ok none

/-- The value at a path, or `fallback` where the path leads nowhere. -/
def getD (v : Value) (path : Path) (fallback : Value) : Except Error Value := do
  .ok ((← get? v path).getD fallback)

/-- Whether a path leads to a value. -/
def has (v : Value) (path : Path) : Except Error Bool := do
  .ok (← get? v path).isSome

/-- The dictionary or list to go on with below a key; anything else makes way for a dictionary. -/
def container : Option Value → Value
  | some (.dict entries) => .dict entries
  | some (.list items) => .list items
  | _ => .dict []

/-- A list position beyond the end, written to if `rest` is empty and else read. -/
def beyondEnd (rest : Path) : Error :=
  .indexRange (if rest.isEmpty then "list assignment index" else "list index")

/-- A list has no keys. -/
def noListKey (rest : Path) : Error :=
  .misuse (if rest.isEmpty then .index "list" "str" else .member "list" "get")

/-- A value without parts has no place to write to. -/
def noPlace (v : Value) (rest : Path) : Error :=
  .misuse (if rest.isEmpty then .itemAssignment v.qualifiedKind
    else .member v.qualifiedKind "get")

/-- The value with `new` at a path. -/
def put (new : Value) : Path → Value → Except Error Value
  | [], _ => .ok new
  | key :: rest, v =>
    match v with
    | .dict entries => do
      let below ← put new rest (container (Document.field? entries key))
      .ok (.dict (Document.putField entries key below))
    | .list items =>
      if Text.isDigits key then do
        let i ← position key
        match items[i]? with
        | some item => do
          let below ← put new rest item
          .ok (.list (items.set i below))
        | none => .error (beyondEnd rest)
      else .error (noListKey rest)
    | other => .error (noPlace other rest)

/-- The value with another one below a segment that leads somewhere. -/
def replaceChild (v : Value) (key : String) (new : Value) : Except Error Value :=
  match v with
  | .dict entries => .ok (.dict (Document.putField entries key new))
  | .list items => do .ok (.list (items.set (← position key) new))
  | other => .ok other

/-- The value without the key at a path. -/
def erase : Path → Value → Except Error Value
  | [], v => .ok v
  | [key], v =>
    match v with
    | .dict entries => .ok (.dict (Document.eraseField entries key))
    | other => .ok other
  | key :: rest, v => do
    match ← child? v key with
    | some c => replaceChild v key (← erase rest c)
    | none => .ok v

/-- The path as text. -/
def text (path : Path) : String :=
  ".".intercalate path

end Path

/-- The position of the first part of `items` equal to `wanted`. -/
def Value.positionOf? (wanted : Value) (items : List Value) : Option Nat :=
  items.findIdx? fun item => item.equal wanted

end DocumentMapper
