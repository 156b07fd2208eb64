import DocumentMapper.Document

/-!
# Deep merge

Merging writes the entries of one dictionary over those of another. Where both hold a dictionary
under a key the two are merged in turn; anywhere else the new value replaces the old one.
-/

namespace DocumentMapper.Document

mutual

/-- What stands under a key that held `old` before. -/
def mergeValue (old : Option Value) : Value → Value
  | .dict entries =>
    match old with
    | some (.dict base) => .dict (merge base entries)
    | _ => .dict entries
  | v => v

def merge (base : Document) : List (Value × Value) → Document
  | [] => base
  | (k, v) :: rest => merge (put k (mergeValue (get? base k) v) base) rest

end

end DocumentMapper.Document
