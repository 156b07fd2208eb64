import DocumentMapper.Value.Access

/-!
# Column references

Inside an expression a column is referred to by its path with a dollar sign in front. Dollar signs
that the caller already wrote are not doubled.
-/

namespace DocumentMapper.Column

def referenceTo (name : String) : String :=
  "$" ++ String.ofList (name.toList.dropWhile (· == '$'))

/-- The reference to a column, which must be a text. -/
def reference : Value → Except Error Value
  | .text s => .ok (.text (referenceTo s))
  | v => .error (.misuse (.member v.qualifiedKind "lstrip"))

/-- Each column with a reference to itself. -/
def references : List Value → Except Error Document
  | [] => .ok []
  | column :: rest => do
    let r ← reference column
    .ok (Document.put column r [] ++ (← references rest))

end DocumentMapper.Column
