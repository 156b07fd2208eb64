import DocumentMapper.Calendar.Moment

/-!
# Moments as text

A moment is written as date, separator and time, the fraction of a second in six digits and only
when it is not zero, the distance from UTC in hours and minutes, and in seconds if it has any.

Reading accepts more: dates with or without hyphens, weeks with or without a day, any separator,
times with or without colons and cut short at any pair of digits, a fraction after a point or
comma of which six digits count, and a distance from UTC in the same form as a time.
-/

namespace DocumentMapper.Calendar

/-- `n` in at least `width` decimal digits. -/
def padded (width n : Nat) : List Char :=
  let digits := Nat.toDigits 10 n
  List.replicate (width - digits.length) '0' ++ digits

def Date.iso (date : Date) : List Char :=
  padded 4 date.year ++ '-' :: padded 2 date.month ++ '-' :: padded 2 date.day

/-- Hours and minutes, then seconds and fraction as far as `always` or their size asks for them. -/
def clockText (always : Bool) (micro : Nat) : List Char :=
  let fraction := micro % second
  let seconds := micro / second % 60
  padded 2 (micro / (3600 * second)) ++ ':' :: padded 2 (micro / (60 * second) % 60) ++
    (if always || seconds != 0 || fraction != 0 then ':' :: padded 2 seconds else []) ++
    (if fraction = 0 then [] else '.' :: padded 6 fraction)

def offsetText : Option Int → List Char
  | none => []
  | some o => (if o < 0 then '-' else '+') :: clockText false o.natAbs

def Moment.isoChars (separator : Char) (m : Moment) : List Char :=
  m.date.iso ++ separator :: clockText true (m.wall % day) ++ offsetText m.offset

def Moment.iso (m : Moment) : String :=
  String.ofList (m.isoChars 'T')

/-- The same text with a blank between date and time. -/
def Moment.spaced (m : Moment) : String :=
  String.ofList (m.isoChars ' ')

/-- Why a text is not a moment. -/
inductive IsoFault where
  | malformed
  | year (y : Int)
  | month
  | day
  | hour
  | minute
  | second
  /-- The distance from UTC, in microseconds, is a day or more. -/
  | offset (micro : Int)
  deriving DecidableEq, Repr

def digitValue? (c : Char) : Option Nat :=
  if '0' ≤ c ∧ c ≤ '9' then some (c.toNat - 48) else none

/-- The number of the first `width` characters, all of them digits, and the rest. -/
def takeNumber : Nat → List Char → Option (Nat × List Char)
  | 0, cs => some (0, cs)
  | _ + 1, [] => none
  | width + 1, c :: cs => do
    let digit ← digitValue? c
    let (n, rest) ← takeNumber width cs
    some (digit * Nat.pow 10 width + n, rest)

/-- A date as read, not yet checked against the calendar. -/
structure DateReading where
  year : Int
  month : Nat
  day : Nat
  deriving DecidableEq, Repr

/-- The date of a day of a week, weeks counted from the one with the year's first Thursday. -/
def weekDate? (year week weekday : Nat) : Option DateReading :=
  if year = 0 ∨ week = 0 ∨ weeksInYear year < week ∨ weekday = 0 ∨ 7 < weekday then none
  else
    let number := firstMonday year + 7 * (week - 1) + (weekday - 1)
    let date := Date.ofDayNumber number.toNat
    some ⟨date.year, date.month, date.day⟩

def readWeekDate? (year : Nat) (hyphens : Bool) (cs : List Char) : Option DateReading := do
  let (week, rest) ← takeNumber 2 cs
  match rest with
  | [] => weekDate? year week 1
  | c :: tail =>
    let (weekday, _) ← takeNumber 1 (if hyphens then (if c = '-' then tail else []) else rest)
    weekDate? year week weekday

def readDate? (cs : List Char) : Option DateReading := do
  let (year, rest) ← takeNumber 4 cs
  let (hyphens, rest) := match rest with
    | '-' :: tail => (true, tail)
    | _ => (false, rest)
  match rest with
  | 'W' :: tail => readWeekDate? year hyphens tail
  | _ =>
    let (month, rest) ← takeNumber 2 rest
    let rest ← if hyphens then
        match rest with
        | '-' :: tail => some tail
        | _ => none
      else some rest
    let (day, rest) ← takeNumber 2 rest
    if rest.isEmpty then some ⟨year, month, day⟩ else none

/-- A time as read, and whether something stands after it. -/
structure ClockReading where
  hour : Nat
  minute : Nat
  second : Nat
  micro : Nat
  leftover : Bool
  deriving DecidableEq, Repr

/-- Up to six digits as a fraction of a second in microseconds; further digits are dropped. -/
def readFraction? (hour minute second : Nat) (cs : List Char) : Option ClockReading := do
  let width := min 6 cs.length
  let (n, rest) ← takeNumber width cs
  let tail := rest.dropWhile fun c => (digitValue? c).isSome
  some ⟨hour, minute, second, n * Nat.pow 10 (6 - width), !tail.isEmpty⟩

/-- What follows one pair of digits of a time. -/
inductive AfterPair where
  | finished (leftover : Bool)
  | next (rest : List Char)
  | fraction (rest : List Char)

/-- A single character after the last pair is left over. With colons, a colon must follow. -/
def afterPair? (colons : Bool) : List Char → Option AfterPair
  | [] => some (.finished false)
  | [_] => some (.finished true)
  | c :: rest =>
    if colons && c = ':' then some (.next rest)
    else if c = '.' ∨ c = ',' then some (.fraction rest)
    else if colons then none
    else some (.next (c :: rest))

def readClock? (cs : List Char) : Option ClockReading := do
  let (hour, rest) ← takeNumber 2 cs
  let colons := rest.head? == some ':'
  match ← afterPair? colons rest with
  | .finished leftover => some ⟨hour, 0, 0, 0, leftover⟩
  | .fraction rest => readFraction? hour 0 0 rest
  | .next rest =>
    let (minute, rest) ← takeNumber 2 rest
    match ← afterPair? colons rest with
    | .finished leftover => some ⟨hour, minute, 0, 0, leftover⟩
    | .fraction rest => readFraction? hour minute 0 rest
    | .next rest =>
      let (second, rest) ← takeNumber 2 rest
      match ← afterPair? colons rest with
      | .finished leftover => some ⟨hour, minute, second, 0, leftover⟩
      | .fraction rest => readFraction? hour minute second rest
      | .next rest => readFraction? hour minute second rest

/-- A time and the distance from UTC in microseconds, zero seconds meaning UTC itself. -/
def readTime? (cs : List Char) : Option (ClockReading × Option Int) := do
  let isMark (c : Char) : Bool := c == '+' || c == '-' || c == 'Z'
  let clock ← readClock? (cs.takeWhile (!isMark ·))
  match cs.dropWhile (!isMark ·) with
  | [] => if clock.leftover then none else some (clock, none)
  | ['Z'] => some (clock, some 0)
  | 'Z' :: _ => none
  | sign :: rest =>
    let distance ← readClock? rest
    if distance.leftover then none
    else
      let whole : Nat := distance.hour * 3600 + distance.minute * 60 + distance.second
      let micro : Int := whole * second + distance.micro
      some (clock, some (if whole = 0 then 0 else if sign = '-' then -micro else micro))

/-- The number of characters of the date, told by where hyphens, the week mark and digits stand. -/
def dateLength? (cs : List Char) : Option Nat :=
  let isDigitAt (i : Nat) : Bool := (cs[i]?.bind digitValue?).isSome
  if cs.length < 7 then none
  else if cs.length = 7 then some 7
  else if cs[4]? = some '-' then
    if cs[5]? = some 'W' then
      if cs[8]? = some '-' then
        if cs.length = 9 then none
        else if isDigitAt 10 then some 8
        else some 10
      else some 8
    else some 10
  else if cs[4]? = some 'W' then
    let stop := 7 + ((cs.drop 7).takeWhile fun c => (digitValue? c).isSome).length
    if stop < 9 then some stop
    else if stop % 2 = 0 then some 7
    else some 8
  else some 8

/-- The moment of a date and a time, the first fault found being the one reported. -/
def assemble (date : DateReading) (clock : ClockReading) (offset : Option Int) :
    Except IsoFault Moment :=
  if ho : ∀ o ∈ offset, -(Calendar.day : Int) < o ∧ o < Calendar.day then
    if date.year < 1 ∨ 9999 < date.year then .error (.year date.year)
    else if date.month < 1 ∨ 12 < date.month then .error .month
    else if date.day < 1 ∨ daysInMonth date.year.toNat date.month < date.day then .error .day
    else if 23 < clock.hour then .error .hour
    else if 59 < clock.minute then .error .minute
    else if 59 < clock.second then .error .second
    else
      let days := Date.dayNumber ⟨date.year.toNat, date.month, date.day⟩
      let time := ((clock.hour * 60 + clock.minute) * 60 + clock.second) * second + clock.micro
      if hw : days * Calendar.day + time < span then
        .ok ⟨days * Calendar.day + time, offset, hw, ho⟩
      else .error (.year date.year)
  else .error (.offset (offset.getD 0))

def Moment.ofIsoChars (cs : List Char) : Except IsoFault Moment :=
  match dateLength? cs with
  | none => .error .malformed
  | some length =>
    match readDate? (cs.take length), cs.drop length with
    | none, _ => .error .malformed
    | some date, [] => assemble date ⟨0, 0, 0, 0, false⟩ none
    | some date, _ :: rest =>
      match readTime? rest with
      | none => .error .malformed
      | some (clock, offset) => assemble date clock offset

def Moment.ofIso (s : String) : Except IsoFault Moment :=
  Moment.ofIsoChars s.toList

end DocumentMapper.Calendar
