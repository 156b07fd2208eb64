import DocumentMapper.Error

/-!
# Moments inside values

Filters and updates are sent with every moment on a clock of UTC. The conversion goes through
dictionaries, lists and tuples, leaves keys and all other values alone, and fails when a moment
has no reading in UTC.
-/

namespace DocumentMapper

open Calendar

/-- The moment on a clock of UTC. -/
def Calendar.Moment.toUtc (m : Moment) : Except Error Moment :=
  match m.toUtc? with
  | some u => .ok u
  | none => .error .dateRange

namespace Value

mutual

def normalizeDates : Value → Except Error Value
  | moment m => do .ok (moment (← m.toUtc))
  | dict entries => do .ok (dict (← normalizeEntries entries))
  | list items => do .ok (list (← normalizeItems items))
  | tuple items => do .ok (tuple (← normalizeItems items))
  | v => .ok v

def normalizeItems : List Value → Except Error (List Value)
  | [] => .ok []
  | v :: rest => do
    let v ← normalizeDates v
    .ok (v :: (← normalizeItems rest))

def normalizeEntries : List (Value × Value) → Except Error (List (Value × Value))
  | [] => .ok []
  | (k, v) :: rest => do
    let v ← normalizeDates v
    .ok ((k, v) :: (← normalizeEntries rest))

end

end Value

end DocumentMapper
