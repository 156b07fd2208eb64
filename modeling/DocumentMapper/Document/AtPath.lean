import DocumentMapper.Path

/-!
# Documents read and written by path

A column is a dotted path into a document. These are the operations on paths for the case where
the whole is a document, so that what is written is a document again.
-/

namespace DocumentMapper

/-- The entries of a dictionary, none for any other value. -/
def Value.entries : Value → Document
  | dict d => d
  | _ => []

namespace Document

/-- What stands in a column, if anything does. -/
def column? (d : Document) (column : String) : Except Error (Option Value) :=
  Path.get? (.dict d) (Path.ofText column)

/-- What stands in a column, `fallback` if nothing does. -/
def columnD (d : Document) (column : String) (fallback : Value) : Except Error Value :=
  Path.getD (.dict d) (Path.ofText column) fallback

def hasColumn (d : Document) (column : String) : Except Error Bool :=
  Path.has (.dict d) (Path.ofText column)

def putColumn (d : Document) (column : String) (v : Value) : Except Error Document := do
  .ok (← Path.put v (Path.ofText column) (.dict d)).entries

def eraseColumn (d : Document) (column : String) : Except Error Document := do
  .ok (← Path.erase (Path.ofText column) (.dict d)).entries

/-- The document without some columns. -/
def without (d : Document) (columns : List String) : Except Error Document :=
  columns.foldlM eraseColumn d

/-- A document to which a column of `d` is copied, if `d` has it. -/
def copyColumn (d result : Document) (column : String) : Except Error Document := do
  match ← d.column? column with
  | some v => result.putColumn column v
  | none => .ok result

/-- The document with nothing but some columns. -/
def only (d : Document) (columns : List String) : Except Error Document :=
  columns.foldlM (copyColumn d) []

end Document

end DocumentMapper
