/-!
# Singular forms

A collection is usually named in the plural. Words with a form of their own come from a table;
any other plural loses its ending. A word that is not a plural stays as it is.
-/

namespace DocumentMapper.Text

/-- Plurals that no ending tells. -/
def irregularSingulars : List (String × String) :=
  [("people", "person"), ("children", "child"), ("news", "news")]

/-- Endings after which a plural takes two letters. -/
def hissingEndings : List (List Char) :=
  [['x'], ['z'], ['s', 's'], ['c', 'h'], ['s', 'h']]

/-- The reversed characters of a word without its plural ending. -/
def dropPlural : List Char → List Char
  | 's' :: 's' :: rest => 's' :: 's' :: rest
  | 's' :: 'e' :: 'i' :: rest => 'y' :: rest
  | 's' :: 'e' :: rest =>
    if hissingEndings.any fun ending => ending.reverse.isPrefixOf rest then rest
    else 'e' :: rest
  | 's' :: rest => rest
  | word => word

def singular (word : String) : String :=
  match irregularSingulars.lookup word with
  | some form => form
  | none => String.ofList (dropPlural word.toList.reverse).reverse

end DocumentMapper.Text
