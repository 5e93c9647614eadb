import Uplink.Text.Blank
import Uplink.Time.Calendar

/-!
# Instants as RFC 3339 text

`read` is lenient in the way that date-time readers often are: blanks may stand between the parts,
the `T` may be a space, numbers may have fewer digits, years may have a sign and more digits, and
the offset may be written `UTC`. `write` uses the offset `Z` and as many of three, six or nine
fraction digits as are needed.
-/

namespace Uplink.Time

/-- Text still to be read, after a value. -/
abbrev Reader (α : Type) := List Char → Option (α × List Char)

def skipBlank (cs : List Char) : List Char := cs.dropWhile Blank.isBlank

def digitValue (c : Char) : Nat := c.toNat - '0'.toNat

def digitsValue (cs : List Char) : Nat := cs.foldl (fun n c => n * 10 + digitValue c) 0

/-- A number of at least one digit and at most so many. -/
def readNumber (width : Nat) : Reader Nat := fun cs =>
  let ds := (cs.takeWhile Char.isDigit).take width
  if ds.isEmpty then none else some (digitsValue ds, cs.drop ds.length)

def readPart (width : Nat) : Reader Nat := fun cs => readNumber width (skipBlank cs)

/-- A year: four digits at most, or any number of digits after a sign. -/
def readYear : Reader Int := fun cs =>
  match skipBlank cs with
  | '-' :: rest => (readNumber rest.length rest).map fun (n, rest) => (-(n : Int), rest)
  | '+' :: rest => (readNumber rest.length rest).map fun (n, rest) => ((n : Int), rest)
  | rest => (readNumber 4 rest).map fun (n, rest) => ((n : Int), rest)

/-- A mark after blanks. -/
def readMark (mark : Char) (cs : List Char) : Option (List Char) :=
  match skipBlank cs with
  | c :: rest => if c = mark then some rest else none
  | [] => none

def readFraction : Reader Nat
  | '.' :: rest => do
    let ds := (rest.takeWhile Char.isDigit).take 9
    if ds.isEmpty then none
    -- Digits after the ninth are passed over.
    else some (digitsValue ds * Nat.pow 10 (9 - ds.length), rest.dropWhile Char.isDigit)
  | cs => some (0, cs)

def readOffsetSign : Reader Bool
  | '+' :: rest => some (false, rest)
  | '-' :: rest => some (true, rest)
  | '\u2212' :: rest => some (true, rest)
  | _ => none

/-- Two digits, the first of which is at most `top`. -/
def readTwoDigits (top : Char) : Reader Nat
  | a :: b :: rest =>
    if a.isDigit && b.isDigit && a ≤ top then some (digitsValue [a, b], rest) else none
  | _ => none

def readOffset (cs : List Char) : Option (Int × List Char) :=
  match skipBlank cs with
  | 'Z' :: rest | 'z' :: rest => some (0, rest)
  | cs =>
    if (cs.take 3).map Char.toUpper = ['U', 'T', 'C'] then some (0, cs.drop 3)
    else do
      let (negative, cs) ← readOffsetSign cs
      let (hours, cs) ← readTwoDigits '9' cs
      -- The colon may be missing, or stand among blanks.
      let cs := cs.dropWhile fun c => c == ':' || Blank.isBlank c
      let (minutes, cs) ← readTwoDigits '5' cs
      let seconds : Int := hours * 3600 + minutes * 60
      if seconds < 86400 then some (if negative then -seconds else seconds, cs) else none

/-- The instant of a second and its nanoseconds, if it is in range. -/
def Instant.ofParts? (seconds : Int) (nanos : Nat) : Option Instant :=
  if h : (firstSecond ≤ seconds ∧ seconds ≤ lastSecond) ∧ nanos < 2000000000 then
    some ⟨seconds, nanos, h.1.1, h.1.2, h.2⟩
  else none

/-- The years that a local date may have. -/
def yearInRange (year : Int) : Bool := -262143 ≤ year && year ≤ 262142

def Instant.read (text : String) : Option Instant := do
  let (year, cs) ← readYear text.toList
  let cs ← readMark '-' cs
  let (month, cs) ← readPart 2 cs
  let cs ← readMark '-' cs
  let (day, cs) ← readPart 2 cs
  let cs ← match cs with
    | c :: rest => if c = 'T' ∨ c = 't' ∨ c = ' ' then some rest else none
    | [] => none
  let (hour, cs) ← readPart 2 cs
  let cs ← readMark ':' cs
  let (minute, cs) ← readPart 2 cs
  let cs ← readMark ':' cs
  let (second, cs) ← readPart 2 cs
  let (fraction, cs) ← readFraction cs
  let (offset, cs) ← readOffset cs
  let date : Date := ⟨year, month, day⟩
  guard ((skipBlank cs).isEmpty ∧ date.Exists ∧ yearInRange year)
  guard (hour < 24 ∧ minute < 60 ∧ second ≤ 60)
  -- The second 60 is the leap second after the second 59, which counts as one that lasts longer.
  let leap := second = 60
  let secondOfDay : Int := hour * 3600 + minute * 60 + (if leap then 59 else second)
  ofParts? (date.toDays * 86400 + secondOfDay - offset)
    (if leap then fraction + 1000000000 else fraction)

/-- Decimal digits with zeros in front up to a width. -/
def padded (width n : Nat) : List Char :=
  let ds := Nat.toDigits 10 n
  List.replicate (width - ds.length) '0' ++ ds

/-- A year of four digits, with a sign if it is negative or has more. -/
def yearChars (year : Int) : List Char :=
  if 0 ≤ year ∧ year ≤ 9999 then padded 4 year.toNat
  else (if year < 0 then '-' else '+') :: padded 4 year.natAbs

/-- The fraction of a second, in groups of three digits. -/
def fractionChars (nanos : Nat) : List Char :=
  if nanos = 0 then []
  else if nanos % 1000000 = 0 then '.' :: padded 3 (nanos / 1000000)
  else if nanos % 1000 = 0 then '.' :: padded 6 (nanos / 1000)
  else '.' :: padded 9 nanos

def Instant.write (i : Instant) : String :=
  let date := Date.ofDays (i.seconds / 86400)
  let secondOfDay := (i.seconds % 86400).toNat
  let leap := 1000000000 ≤ i.nanos
  let second := secondOfDay % 60 + (if leap then 1 else 0)
  String.ofList (yearChars date.year ++ '-' :: padded 2 date.month ++ '-' :: padded 2 date.day ++
    'T' :: padded 2 (secondOfDay / 3600) ++ ':' :: padded 2 (secondOfDay / 60 % 60) ++
    ':' :: padded 2 second ++ fractionChars (if leap then i.nanos - 1000000000 else i.nanos) ++
    ['Z'])

end Uplink.Time
