/-!
# The calendar

Days of the Gregorian calendar, extended to all years, and instants of the time that has no
offset. Day 0 is 1 January 1970.
-/

namespace Uplink.Time

structure Date where
  year : Int
  month : Nat
  day : Nat
deriving DecidableEq, Repr

def isLeapYear (year : Int) : Bool :=
  year % 4 = 0 && (year % 100 ≠ 0 || year % 400 = 0)

def monthLength (year : Int) : Nat → Nat
  | 2 => if isLeapYear year then 29 else 28
  | 4 | 6 | 9 | 11 => 30
  | _ => 31

/-- The month and the day exist. -/
def Date.Exists (d : Date) : Prop :=
  1 ≤ d.month ∧ d.month ≤ 12 ∧ 1 ≤ d.day ∧ d.day ≤ monthLength d.year d.month

instance (d : Date) : Decidable d.Exists := by unfold Date.Exists; infer_instance

/-- The number of the day. Years are counted from 1 March, so that a leap day is the last day of
its year, in eras of 400 years, which all have 146097 days. -/
def Date.toDays (d : Date) : Int :=
  let year := if d.month ≤ 2 then d.year - 1 else d.year
  let era := year / 400
  let yearOfEra := year - era * 400
  let dayOfYear : Int := (153 * ((d.month + 9) % 12) + 2) / 5 + d.day - 1
  let dayOfEra := yearOfEra * 365 + yearOfEra / 4 - yearOfEra / 100 + dayOfYear
  era * 146097 + dayOfEra - 719468

def Date.ofDays (days : Int) : Date :=
  let shifted := days + 719468
  let era := shifted / 146097
  let dayOfEra := shifted - era * 146097
  let yearOfEra := (dayOfEra - dayOfEra / 1460 + dayOfEra / 36524 - dayOfEra / 146096) / 365
  let dayOfYear := dayOfEra - (365 * yearOfEra + yearOfEra / 4 - yearOfEra / 100)
  let part := (5 * dayOfYear + 2) / 153
  let day := dayOfYear - (153 * part + 2) / 5 + 1
  let month := if part < 10 then part + 3 else part - 9
  let year := yearOfEra + era * 400 + (if month ≤ 2 then 1 else 0)
  ⟨year, month.toNat, day.toNat⟩

/-- The first second that an instant can have, the start of the year -262143. -/
def firstSecond : Int := -8334601228800

/-- The last second that an instant can have, the end of the year 262142. -/
def lastSecond : Int := 8210266876799

/-- An instant: whole seconds since the start of 1970 and nanoseconds after them. More than a
second's worth of nanoseconds is an instant within a leap second. -/
structure Instant where
  seconds : Int
  nanos : Nat
  firstSecond_le : firstSecond ≤ seconds
  le_lastSecond : seconds ≤ lastSecond
  nanos_lt : nanos < 2000000000
deriving DecidableEq, Repr

/-- Milliseconds since the start of 1970, rounded down. -/
def Instant.millis (i : Instant) : Int :=
  i.seconds * 1000 + i.nanos / 1000000

/-- The instant a number of milliseconds after the start of 1970, if it is in range. -/
def Instant.ofMillis? (millis : Int) : Option Instant :=
  if h : firstSecond ≤ millis / 1000 ∧ millis / 1000 ≤ lastSecond then
    some ⟨millis / 1000, (millis % 1000).toNat * 1000000, h.1, h.2, by omega⟩
  else none

theorem Instant.millis_of_ofMillis? {m : Int} {i : Instant} (h : ofMillis? m = some i) :
    i.millis = m := by
  unfold ofMillis? at h
  split at h
  · cases h; simp only [millis]; omega
  · cases h

theorem Instant.ofMillis?_eq_none_iff {m : Int} :
    ofMillis? m = none ↔ m < firstSecond * 1000 ∨ lastSecond * 1000 + 999 < m := by
  unfold ofMillis? firstSecond lastSecond
  split <;> simp <;> omega

end Uplink.Time
