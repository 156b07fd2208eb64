import DocumentMapper.Value.Display
import DocumentMapper.Text.Blank

/-!
# Literal patterns

A text becomes a pattern that matches it literally when a backslash is put before every character
that means something in a pattern, blanks included. A pattern for the start or the end of a text
adds one anchor that is not escaped.
-/

namespace DocumentMapper.Pattern

/-- The characters other than blanks that mean something in a pattern. -/
def metacharacters : List Char := "-[]\x7b\x7d()*+?.,\\^$|#".toList

def isSpecial (c : Char) : Bool :=
  metacharacters.contains c || Text.isBlank c

def escapeChars (cs : List Char) : List Char :=
  cs.flatMap fun c => if isSpecial c then ['\\', c] else [c]

/-- The display text of a value with its special characters escaped. -/
def escape (v : Value) : String :=
  String.ofList (escapeChars v.display.toList)

/-- Which end of a text a literal pattern is bound to. -/
inductive Anchor where
  | anywhere
  | start
  | finish
  deriving DecidableEq, Repr

/-- The pattern that finds the display text of `v`; a pattern stands for itself. -/
def literalFor (anchor : Anchor) (ignoreCase : Bool) (v : Value) : Pattern :=
  match v with
  | .pattern p => p
  | v =>
    let source := match anchor with
      | .anywhere => escape v
      | .start => "^" ++ escape v
      | .finish => escape v ++ "$"
    { plain source with ignoreCase }

end DocumentMapper.Pattern
