/-!
# Places of files

A place is the way to a file from the root. A path leads from a directory to a place, step by step
between its slashes: a step of two points leads back, one of a single point or of nothing leads
nowhere, and any other one goes further. A path that begins with a slash leads from the root.
-/

namespace DocumentMapper.Log

/-- The way to a file or a directory from the root. -/
abbrev Place := List String

namespace Place

/-- The characters between slashes. -/
def splitSlashes : List Char → List (List Char)
  | [] => [[]]
  | c :: rest =>
    if c = '/' then [] :: splitSlashes rest
    else
      match splitSlashes rest with
      | step :: more => (c :: step) :: more
      | [] => [[c]]

/-- Where one step of a path leads. -/
def step (place : Place) (name : List Char) : Place :=
  if name = [] ∨ name = ['.'] then place
  else if name = ['.', '.'] then place.dropLast
  else place ++ [String.ofList name]

/-- Where a path leads from a directory. -/
def follow (directory : Place) (path : String) : Place :=
  (splitSlashes path.toList).foldl step (if path.toList.head? = some '/' then [] else directory)

end Place

end DocumentMapper.Log
