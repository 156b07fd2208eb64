import DocumentMapper.Value.Equality

/-!
# Dictionaries as entry lists

A dictionary is looked up by equality of keys. Writing to a key that is present keeps its place
and its spelling, any other key goes to the end, and erasing keeps the order of the rest.
-/

namespace DocumentMapper.Document

def get? (d : Document) (key : Value) : Option Value :=
  (d.find? fun (k, _) => k.same key).map (·.2)

def has (d : Document) (key : Value) : Bool :=
  d.any fun (k, _) => k.same key

def put (key v : Value) : Document → Document
  | [] => [(key, v)]
  | (k, old) :: rest => if k.same key then (k, v) :: rest else (k, old) :: put key v rest

def erase (d : Document) (key : Value) : Document :=
  d.filter fun (k, _) => !k.same key

/-- The value under a text key. -/
def field? (d : Document) (name : String) : Option Value :=
  d.get? (.text name)

/-- The value under a text key, null when there is none. -/
def fieldOrNull (d : Document) (name : String) : Value :=
  (d.field? name).getD .null

def putField (d : Document) (name : String) (v : Value) : Document :=
  put (.text name) v d

def eraseField (d : Document) (name : String) : Document :=
  d.erase (.text name)

/-- The entries of `d` with those of `other` written over them in turn. -/
def update (d other : Document) : Document :=
  other.foldl (fun d (k, v) => put k v d) d

/-- The dictionary of entries written in turn. -/
def ofEntries (entries : List (Value × Value)) : Document :=
  update [] entries

theorem get?_put_text_self (d : Document) (name : String) (v : Value) :
    get? (put (.text name) v d) (.text name) = some v := by
  induction d with
  | nil => simp [put, get?, Value.same, Value.sameScalar]
  | cons e rest ih =>
    obtain ⟨k, old⟩ := e
    unfold put
    split
    · next h => simp [get?, h]
    · next h =>
      simp only [get?, List.find?_cons, h] at ih ⊢
      exact ih

theorem get?_put_text_of_ne {d : Document} {name other : String} {v : Value} (h : other ≠ name) :
    get? (put (.text name) v d) (.text other) = get? d (.text other) := by
  induction d with
  | nil => simp [put, get?, Value.same, Value.sameScalar, Ne.symm h]
  | cons e rest ih =>
    obtain ⟨k, old⟩ := e
    unfold put
    split
    · next hk =>
      obtain rfl := Value.same_text.1 hk
      simp [get?, Value.same, Value.sameScalar, Ne.symm h]
    · simp only [get?, List.find?_cons] at ih ⊢
      split
      · rfl
      · exact ih

end DocumentMapper.Document
