import DocumentMapper.Calendar.Civil

/-!
# Moments

A moment is the reading of a wall clock, in microseconds since the start of year 1, together with
the distance of that clock from UTC when it is known. The reading lies in the years 1 to 9999 and
the distance is less than a day, both by construction; so the instant of a moment may lie up to
a day outside those years, and then it has no reading in UTC.
-/

namespace DocumentMapper.Calendar

/-- Microseconds of a second. -/
def second : Nat := 1000000

/-- Microseconds of a day. -/
def day : Nat := 86400 * second

/-- Microseconds of the years 1 to 9999. -/
def span : Nat := dayCount * day

structure Moment where
  /-- Microseconds that the wall clock has counted. -/
  wall : Nat
  /-- Microseconds by which the wall clock is ahead of UTC, if that is known. -/
  offset : Option Int
  wall_lt : wall < span
  offset_lt : ∀ o ∈ offset, -(day : Int) < o ∧ o < day
  deriving DecidableEq

namespace Moment

instance : Inhabited Moment := ⟨⟨0, none, by decide, by simp⟩⟩

theorem no_offset_lt : ∀ o ∈ (none : Option Int), -(day : Int) < o ∧ o < day := by
  simp

theorem zero_offset_lt : ∀ o ∈ some (0 : Int), -(day : Int) < o ∧ o < day := by
  simp [day, second]

/-- The moment a clock of UTC shows after `wall` microseconds. -/
def utc? (wall : Int) : Option Moment :=
  if h : 0 ≤ wall ∧ wall < span then
    some ⟨wall.toNat, some 0, by omega, zero_offset_lt⟩
  else none

/-- Microseconds from the start of year 1 in UTC; a clock of unknown distance counts as UTC. -/
def instant (m : Moment) : Int :=
  m.wall - m.offset.getD 0

/-- The same instant on a clock of UTC, if it lies in the years 1 to 9999. -/
def toUtc? (m : Moment) : Option Moment :=
  utc? m.instant

/-- Two clocks of known distance agree when they show the same instant, two of unknown distance
when they show the same reading, and one of each never. -/
def same (a b : Moment) : Bool :=
  match a.offset, b.offset with
  | some _, some _ => a.instant == b.instant
  | none, none => a.wall == b.wall
  | _, _ => false

def date (m : Moment) : Date :=
  Date.ofDayNumber (m.wall / day)

def hour (m : Moment) : Nat := m.wall % day / (3600 * second)
def minute (m : Moment) : Nat := m.wall % (3600 * second) / (60 * second)
def seconds (m : Moment) : Nat := m.wall % (60 * second) / second
def microsecond (m : Moment) : Nat := m.wall % second

theorem utc?_isSome {wall : Int} : (utc? wall).isSome = true ↔ 0 ≤ wall ∧ wall < span := by
  unfold utc?
  split <;> simp_all

theorem instant_of_utc? {wall : Int} {m : Moment} (h : utc? wall = some m) :
    m.instant = wall ∧ m.offset = some 0 := by
  unfold utc? at h
  split at h
  · obtain rfl := Option.some.inj h
    simp only [instant, Option.getD_some, and_true]
    omega
  · simp at h

end Moment

/-- The first moment of 1970, on a clock of UTC, in microseconds. -/
def epoch : Nat := 719162 * day

/-- Why a number of seconds since 1970 is not a moment. -/
inductive UnixFault where
  /-- The seconds do not fit into 64 bits. -/
  | beyondClock
  /-- The year does not fit into 32 bits. -/
  | beyondCalendar
  /-- The year is not one of 1 to 9999. -/
  | year (y : Int)
  deriving DecidableEq, Repr

/-- The integers of 64 bits with a sign lie from minus this number to below it. -/
def clockLimit : Int := 9223372036854775808

/-- The integers of 32 bits with a sign lie from minus this number to below it. -/
def calendarLimit : Int := 2147483648

/-- The moment `seconds` seconds and `micro` microseconds after the start of 1970. -/
def Moment.ofUnix (seconds : Int) (micro : Nat) : Except UnixFault Moment :=
  if seconds < -clockLimit ∨ clockLimit ≤ seconds then .error .beyondClock
  else
    let wall : Int := epoch + seconds * second + micro
    match Moment.utc? wall with
    | some m => .ok m
    | none =>
      let year := yearOfDay (wall.fdiv day)
      if year - 1900 < -calendarLimit ∨ calendarLimit ≤ year - 1900 then .error .beyondCalendar
      else .error (.year (year.bmod 4294967296))

end DocumentMapper.Calendar
