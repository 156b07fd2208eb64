import DocumentMapper.Document
import DocumentMapper.Error

/-!
# Parts of values

Walking through a value, taking one part of it and counting its parts. A dictionary is walked by
its keys and a text by its characters.
-/

namespace DocumentMapper.Value

/-- The parts of a value in order. -/
def parts : Value → Except Error (List Value)
  | list items | tuple items => .ok items
  | dict entries => .ok (entries.map (·.1))
  | text s => .ok (s.toList.map fun c => text c.toString)
  | v => .error (.misuse (.iteration v.qualifiedKind))

/-- The part at a position from zero. -/
def item (v : Value) (i : Nat) : Except Error Value :=
  match v with
  | list items => (items[i]?).elim (.error (.indexRange "list index")) .ok
  | tuple items => (items[i]?).elim (.error (.indexRange "tuple index")) .ok
  | text s =>
    (s.toList[i]?).elim (.error (.indexRange "string index")) fun c => .ok (text c.toString)
  | dict entries =>
    (Document.get? entries (int i)).elim (.error (.missingKey (int i))) .ok
  | v => .error (.misuse (.subscript v.qualifiedKind))

/-- The part under a text key. -/
def field (v : Value) (name : String) : Except Error Value :=
  match v with
  | dict entries => (Document.field? entries name).elim (.error (.missingKey (text name))) .ok
  | list _ => .error (.misuse (.index "list" "str"))
  | tuple _ => .error (.misuse (.index "tuple" "str"))
  | text _ => .error (.misuse (.index "string" "'str'"))
  | v => .error (.misuse (.subscript v.qualifiedKind))

/-- The number of parts. -/
def size (v : Value) : Except Error Nat :=
  match v with
  | list items | tuple items => .ok items.length
  | dict entries => .ok entries.length
  | text s => .ok s.length
  | v => .error (.misuse (.length v.qualifiedKind))

/-- The entries of a dictionary; any other value lacks the operation `operation`. -/
def entriesFor (operation : String) : Value → Except Error Document
  | dict entries => .ok entries
  | v => .error (.misuse (.member v.qualifiedKind operation))

mutual

/-- The kind that keeps a value from being a key: lists and dictionaries, also inside tuples. -/
def unhashable? : Value → Option String
  | list _ => some "list"
  | dict _ => some "dict"
  | tuple items => unhashableItem? items
  | stage _ payload => unhashable? payload
  | _ => none

def unhashableItem? : List Value → Option String
  | [] => none
  | v :: rest => (unhashable? v).or (unhashableItem? rest)

end

/-- The value as a key of a dictionary. -/
def asKey (v : Value) : Except Error Value :=
  match v.unhashable? with
  | some kind => .error (.misuse (.unhashable kind))
  | none => .ok v

/-- An element of a sequence as an entry. -/
def asEntry (position : Nat) (v : Value) : Except Error (Value × Value) :=
  match v.parts with
  | .ok [key, v] => do .ok (← asKey key, v)
  | .ok items => .error (.pairLength position items.length)
  | .error _ => .error (.misuse (.pair position))

/-- The value as a dictionary: a dictionary itself, or the entries that a sequence of pairs
writes in turn. -/
def toDocument : Value → Except Error Document
  | dict entries => .ok entries
  | v => do
    let entries ← (← parts v).zipIdx.mapM fun (v, i) => asEntry i v
    .ok (Document.ofEntries entries)

theorem asKey_text (s : String) : (text s).asKey = .ok (text s) := by
  simp [asKey, unhashable?]

end DocumentMapper.Value
