/-!
# Punycode

The spelling of a label of a domain name in ASCII. The ASCII characters stand in front, and the
others follow as differences between their code points and places, in numbers of base 36 whose
digits adapt to what was written before.
-/

namespace Uplink.Punycode

/-- The digit for a number below 36. -/
def digit (n : Nat) : Char :=
  if n < 26 then Char.ofNat ('a'.toNat + n) else Char.ofNat ('0'.toNat + (n - 26))

/-- The threshold of the digit at a place. -/
def threshold (bias place : Nat) : Nat :=
  if place ≤ bias then 1 else if bias + 26 ≤ place then 26 else place - bias

/-- Divide a difference down to the range of a single digit, counting places. -/
def settleBias (delta places : Nat) : Nat :=
  if 455 < delta then settleBias (delta / 35) (places + 36)
  else places + 36 * delta / (delta + 38)
termination_by delta

/-- The bias after a difference has been written as the so manieth. -/
def adapt (delta count : Nat) (isFirst : Bool) : Nat :=
  let scaled := if isFirst then delta / 700 else delta / 2
  settleBias (scaled + scaled / count) 0

/-- A difference as digits of falling thresholds. The number is fuel. -/
def digitsOf (bias : Nat) : Nat → Nat → Nat → List Char
  | 0, _, _ => []
  | fuel + 1, place, q =>
    let t := threshold bias place
    if q < t then [digit q]
    else digit (t + (q - t) % (36 - t)) :: digitsOf bias fuel (place + 36) ((q - t) / (36 - t))

structure State where
  out : List Char
  delta : Nat
  bias : Nat
  handled : Nat

/-- Pass a character of the label while the code point `point` is written. -/
def pass (basic point : Nat) (s : State) (c : Char) : State :=
  if c.toNat < point then { s with delta := s.delta + 1 }
  else if c.toNat = point then
    { out := s.out ++ digitsOf s.bias (s.delta + 1) 36 s.delta
      delta := 0
      bias := adapt s.delta (s.handled + 1) (s.handled == basic)
      handled := s.handled + 1 }
  else s

/-- Write all characters that are not ASCII, from the lowest code point upwards. -/
def passAll (label : List Char) (basic : Nat) : List Nat → Nat → State → State
  | [], _, s => s
  | point :: points, next, s =>
    let s := { s with delta := s.delta + (point - next) * (s.handled + 1) }
    let s := label.foldl (pass basic point) s
    passAll label basic points (point + 1) { s with delta := s.delta + 1 }

def isAscii (c : Char) : Bool := c.toNat < 0x80

/-- Insert a number into an ascending list without repetition. -/
def insertPoint (n : Nat) : List Nat → List Nat
  | [] => [n]
  | m :: rest => if n < m then n :: m :: rest else if n = m then m :: rest
    else m :: insertPoint n rest

/-- The spelling of a label. -/
def encode (label : List Char) : List Char :=
  let basic := label.filter isAscii
  let points := (label.filter fun c => !isAscii c).foldl (fun ps c => insertPoint c.toNat ps) []
  let written := passAll label basic.length points 128 ⟨[], 0, 72, basic.length⟩
  (if basic.isEmpty then [] else basic ++ ['-']) ++ written.out

/-! ## Reading -/

def digitValue? (c : Char) : Option Nat :=
  if c.isDigit then some (c.toNat - '0'.toNat + 26)
  else if 'a' ≤ c ∧ c ≤ 'z' then some (c.toNat - 'a'.toNat)
  else none

/-- The differences are numbers of 32 bits. -/
def maxDelta : Nat := UInt32.size - 1

/-- A difference off the front of the digits. The last digit of a difference is the first below the
threshold of its place. -/
def readDelta (bias : Nat) : Nat → Nat → Nat → List Char → Option (Nat × List Char)
  | _, _, _, [] => none
  | place, weight, delta, c :: cs => do
    let d ← digitValue? c
    let delta := delta + d * weight
    if maxDelta < delta then none
    else
      let t := threshold bias place
      if d < t then some (delta, cs) else readDelta bias (place + 36) (weight * (36 - t)) delta cs

/-- Insert the characters that the digits stand for, each at its place. The first number is fuel,
the others are the place after the last character and its code point. -/
def readAll : Nat → Nat → Nat → Nat → List Char → List Char → Option (List Char)
  | _, _, _, _, label, [] => some label
  | 0, _, _, _, _, _ => none
  | fuel + 1, place, point, bias, label, cs => do
    let (delta, rest) ← readDelta bias 36 1 0 cs
    let count := label.length + 1
    let turn := place + delta
    let next := point + turn / count
    if next.isValidChar then
      let label := label.insertIdx (turn % count) (Char.ofNat next)
      readAll fuel (turn % count + 1) next (adapt delta count (place == 0)) label rest
    else none

/-- The label that a spelling stands for. The ASCII characters end at the last hyphen. -/
def decode? (spelling : List Char) : Option (List Char) :=
  let digits := (spelling.reverse.takeWhile (· != '-')).reverse
  let basic := (spelling.take (spelling.length - digits.length)).dropLast
  readAll digits.length 0 128 72 basic digits

end Uplink.Punycode
