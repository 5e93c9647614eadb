import Uplink.Number.Binary

/-!
# The fewest digits that read back

Of all decimal numbers that round to a given binary number, `shortest` takes one with the fewest
digits, and of those the nearest. Decimal grids are tried from coarse to fine: a grid has a point
in the rounding interval only if one of the two neighbours of the number on that grid lies there.
-/

namespace Uplink.Number

/-- A decimal number `digits * 10 ^ exponent`. -/
structure Decimal where
  digits : Nat
  exponent : Int
deriving DecidableEq, Repr

/-- Which neighbour is taken when both are equally near. -/
inductive Tie where
  | up
  | even
deriving DecidableEq, Repr

/-- The numbers that round to `m * 2 ^ unit`, in quarters of the unit: the lower end, the number
and the upper end. -/
structure Interval where
  low : Nat
  middle : Nat
  high : Nat
  unit : Int
  closed : Bool

/-- The rounding interval of a positive number. -/
def Format.interval (f : Format) (m : Nat) (unit : Int) : Interval where
  -- Below a power of two the next number is only half a unit away.
  low := if m = Nat.pow 2 f.fraction ∧ f.minUnit < unit then 4 * m - 1 else 4 * m - 2
  middle := 4 * m
  high := 4 * m + 2
  unit := unit - 2
  -- At the ends, rounding goes to the even neighbour.
  closed := m % 2 = 0

/-- The point of the grid of multiples of `10 ^ exponent` that lies in the interval, the nearer
one if there are two next to the number. -/
def Interval.pointOn? (i : Interval) (tie : Tie) (exponent : Int) : Option Nat :=
  let left (quarters : Nat) := quarters * Nat.pow 2 i.unit.toNat * Nat.pow 10 (-exponent).toNat
  let right (point : Nat) := point * Nat.pow 2 (-i.unit).toNat * Nat.pow 10 exponent.toNat
  let inside (point : Nat) :=
    if i.closed then left i.low ≤ right point ∧ right point ≤ left i.high
    else left i.low < right point ∧ right point < left i.high
  -- The neighbours of the number on the grid.
  let below := left i.middle / right 1
  let above := below + 1
  if inside below then
    if inside above then
      let down := left i.middle - right below
      let up := right above - left i.middle
      if down < up then some below
      else if up < down then some above
      else match tie with
        | .up => some above
        | .even => some (below + below % 2)
    else some below
  else if inside above then some above
  else none

/-- The first grid with a point in the interval, from `exponent` downwards. -/
def Interval.search (i : Interval) (tie : Tie) : Nat → Int → Decimal
  | 0, exponent => ⟨0, exponent⟩
  | grids + 1, exponent =>
    match i.pointOn? tie exponent with
    | some digits => ⟨digits, exponent⟩
    | none => i.search tie grids (exponent - 1)

def digitCount (n : Nat) : Nat := (Nat.toDigits 10 n).length

/-- An exponent such that `10 ^ exponent` is above `num / den` by at most two places. -/
def topExponent (num den : Nat) : Int :=
  if den ≤ num then digitCount (num / den) else 2 - (digitCount (den / num) : Int)

/-- The shortest decimal that rounds to the positive number `m * 2 ^ unit`. -/
def Format.shortest (f : Format) (tie : Tie) (m : Nat) (unit : Int) : Decimal :=
  let (num, den) := ratio m unit
  -- Seventeen digits are always enough for the formats here, so twenty-one grids are.
  (f.interval m unit).search tie 21 (topExponent num den)

end Uplink.Number
