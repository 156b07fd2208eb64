import DocumentMapper.Value.Display

/-!
# Writing values as JSON

Members are separated by a comma and a blank, a key from its value by a colon and a blank, and
every character outside printable ASCII is escaped in UTF-16 units. Tuples are written as arrays
and values that JSON lacks as their display text. Keys that are numbers, truth values or null
become texts; any other key that is not a text cannot be written and is the error.
-/

namespace DocumentMapper.Json

open Text Number

/-- The escape of one UTF-16 unit. -/
def unitEscape (unit : Nat) : List Char :=
  '\\' :: 'u' :: hexDigits 4 unit

def escapedChar (c : Char) : List Char :=
  if c = '"' ∨ c = '\\' then ['\\', c]
  else if c = '\n' then ['\\', 'n']
  else if c = '\r' then ['\\', 'r']
  else if c = '\t' then ['\\', 't']
  else if c.toNat = 0x08 then ['\\', 'b']
  else if c.toNat = 0x0c then ['\\', 'f']
  else if 0x20 ≤ c.toNat ∧ c.toNat ≤ 0x7e then [c]
  else if c.toNat < 0x10000 then unitEscape c.toNat
  else
    let rest := c.toNat - 0x10000
    unitEscape (0xd800 + rest / 0x400) ++ unitEscape (0xdc00 + rest % 0x400)

def textJson (s : String) : String :=
  String.ofList ('"' :: s.toList.flatMap escapedChar ++ ['"'])

/-- The text of a key. -/
def keyText : Value → Except Value String
  | .text s => .ok s
  | .int n => .ok (toString n)
  | .float x => .ok (jsonLayout.text x)
  | .bool b => .ok (if b then "true" else "false")
  | .null => .ok "null"
  | key => .error key

mutual

def write : Value → Except Value String
  | .null => .ok "null"
  | .bool b => .ok (if b then "true" else "false")
  | .int n => .ok (toString n)
  | .float x => .ok (jsonLayout.text x)
  | .text s => .ok (textJson s)
  | .list items | .tuple items => do .ok ("[" ++ ", ".intercalate (← writeItems items) ++ "]")
  | .dict entries => do
    .ok ("\x7b" ++ ", ".intercalate (← writeEntries entries) ++ "\x7d")
  | v => .ok (textJson v.display)

def writeItems : List Value → Except Value (List String)
  | [] => .ok []
  | v :: rest => do
    let text ← write v
    .ok (text :: (← writeItems rest))

def writeEntries : List (Value × Value) → Except Value (List String)
  | [] => .ok []
  | (k, v) :: rest => do
    let key ← keyText k
    let text ← write v
    .ok ((textJson key ++ ": " ++ text) :: (← writeEntries rest))

end

end DocumentMapper.Json
