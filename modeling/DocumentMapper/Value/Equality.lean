import DocumentMapper.Value.Basic

/-!
# Equality of values

Numbers of different kinds are equal when they have the same value, truth values counting as 0
and 1. Lists and tuples are equal element by element and never to each other, dictionaries when
they hold the same entries in any order, moments by `Moment.same`. A record equals nothing, not
even a copy of itself.

`equal` compares two values; `same` compares two parts of larger values, where not-a-number
counts as itself because a copy of a document shares such parts with what it was copied from.
-/

namespace DocumentMapper.Value

open Number

/-- Equality of values that have no parts. -/
def sameScalar : Value → Value → Bool
  | null, null => true
  | bool a, bool b => a == b
  | bool a, int n => ofTruth a == n
  | int n, bool b => n == ofTruth b
  | bool a, float x => sameInt (ofTruth a) x
  | float x, bool b => sameInt (ofTruth b) x
  | int n, int k => n == k
  | int n, float x => sameInt n x
  | float x, int n => sameInt n x
  | float x, float y => sameFloat x y
  | text a, text b => a == b
  | moment a, moment b => a.same b
  | pattern a, pattern b => a == b
  | objectId a, objectId b => a == b
  | model a, model b => a == b
  | _, _ => false

mutual

/-- Equality of two parts of larger values. -/
def same : Value → Value → Bool
  | list xs, list ys => sameItems xs ys
  | tuple xs, tuple ys => sameItems xs ys
  | dict xs, dict ys => xs.length == ys.length && sameEntries xs ys
  | stage name payload, stage other payload' => name == other && same payload payload'
  | a, b => sameScalar a b

def sameItems : List Value → List Value → Bool
  | [], [] => true
  | x :: xs, y :: ys => same x y && sameItems xs ys
  | _, _ => false

/-- Whether every entry of the first dictionary is one of the second. -/
def sameEntries : List (Value × Value) → List (Value × Value) → Bool
  | [], _ => true
  | (k, v) :: rest, ys =>
    ys.any (fun (k', v') => same k k' && same v v') && sameEntries rest ys

end

/-- Equality of two values, not-a-number differing from everything. -/
def equal : Value → Value → Bool
  | float x, float y => sameFloat x y && !isNotANumber x
  | a, b => same a b

theorem same_text {s : String} {v : Value} : same v (text s) = true ↔ v = text s := by
  cases v <;> simp [same, sameScalar]

theorem text_same {s : String} {v : Value} : same (text s) v = true ↔ v = text s := by
  cases v <;> simp [same, sameScalar]
  exact eq_comm

end DocumentMapper.Value
