/-!
# Binary floating-point numbers as bits

A number of a binary format is kept as its bits. `Format.value` says which number the bits stand
for, and `Format.nearest` finds the bits nearest to a ratio, a half going to the even neighbour.
All arithmetic is exact and on natural numbers, so nothing here depends on the machine.
-/

namespace Uplink.Number

/-- A binary format: so many stored fraction bits, so many exponent bits, and a sign. -/
structure Format where
  fraction : Nat
  exponent : Nat
deriving DecidableEq, Repr

/-- 64 bits: 52 of fraction, 11 of exponent. -/
def Format.double : Format := ⟨52, 11⟩

/-- 32 bits: 23 of fraction, 8 of exponent. -/
def Format.single : Format := ⟨23, 8⟩

structure Double where
  bits : UInt64
deriving DecidableEq, Repr, Inhabited

structure Single where
  bits : UInt32
deriving DecidableEq, Repr, Inhabited

/-- What bits stand for. A finite number is `m * 2 ^ unit` with a sign. -/
inductive Value where
  | nan
  | infinite (negative : Bool)
  | finite (negative : Bool) (m : Nat) (unit : Int)
deriving DecidableEq, Repr

namespace Format

/-- The exponent of the unit in which the smallest numbers are counted. -/
def minUnit (f : Format) : Int :=
  2 - Nat.pow 2 (f.exponent - 1) - f.fraction

def infinityBits (f : Format) : Nat :=
  (Nat.pow 2 f.exponent - 1) * Nat.pow 2 f.fraction

def signBit (f : Format) : Nat :=
  Nat.pow 2 (f.fraction + f.exponent)

def value (f : Format) (bits : Nat) : Value :=
  let negative := bits / f.signBit % 2 == 1
  let exponent := bits / Nat.pow 2 f.fraction % Nat.pow 2 f.exponent
  let fraction := bits % Nat.pow 2 f.fraction
  if exponent + 1 = Nat.pow 2 f.exponent then
    if fraction = 0 then .infinite negative else .nan
  -- The smallest numbers have no leading bit that is left out.
  else if exponent = 0 then .finite negative fraction f.minUnit
  else .finite negative (fraction + Nat.pow 2 f.fraction) (f.minUnit + (exponent - 1))

end Format

def roundHalfEven (num den : Nat) : Nat :=
  let quotient := num / den
  let twice := 2 * (num % den)
  if twice < den then quotient
  else if den < twice then quotient + 1
  -- A half goes to the even neighbour.
  else quotient + quotient % 2

/-- Numerator and denominator of `m * 2 ^ unit`. -/
def ratio (m : Nat) (unit : Int) : Nat × Nat :=
  (m * Nat.pow 2 unit.toNat, Nat.pow 2 (-unit).toNat)

namespace Format

/-- The largest `e` with `2 ^ e ≤ num / den`, for positive numbers. -/
def floorLog2 (num den : Nat) : Int :=
  let guess : Int := (Nat.log2 num : Int) - Nat.log2 den
  if den * Nat.pow 2 guess.toNat ≤ num * Nat.pow 2 (-guess).toNat then guess else guess - 1

/-- The magnitude bits of the number nearest to `num / den`. -/
def nearest (f : Format) (num den : Nat) : Nat :=
  if num = 0 then 0
  else
    let unit := max (floorLog2 num den - f.fraction) f.minUnit
    let m := roundHalfEven (num * Nat.pow 2 (-unit).toNat) (den * Nat.pow 2 unit.toNat)
    -- What is rounded up to the next power of two carries over into the exponent, and at last to
    -- infinity.
    min ((unit - f.minUnit).toNat * Nat.pow 2 f.fraction + m) f.infinityBits

def nearestSigned (f : Format) (negative : Bool) (num den : Nat) : Nat :=
  (if negative then f.signBit else 0) + f.nearest num den

end Format

namespace Double

def value (x : Double) : Value := Format.double.value x.bits.toNat

def ofRatio (negative : Bool) (num den : Nat) : Double :=
  ⟨UInt64.ofNat (Format.double.nearestSigned negative num den)⟩

def ofInt (i : Int) : Double := ofRatio (i < 0) i.natAbs 1

/-- The quiet number that is none. -/
def nan : Double := ⟨0x7FF8000000000000⟩

def zero : Double := ⟨0⟩

def neg (x : Double) : Double := ⟨x.bits ^^^ 0x8000000000000000⟩

def isNaN (x : Double) : Bool := x.value == .nan

/-- Neither infinite nor no number. -/
def isFinite (x : Double) : Bool :=
  match x.value with
  | .finite .. => true
  | _ => false

def isInfinite (x : Double) : Bool :=
  match x.value with
  | .infinite _ => true
  | _ => false

def isZero (x : Double) : Bool :=
  match x.value with
  | .finite _ m _ => m == 0
  | _ => false

/-- The rounded product of two finite numbers; no number otherwise. -/
def mul (x y : Double) : Double :=
  match x.value, y.value with
  | .finite s m u, .finite t n v =>
    let (num, den) := ratio (m * n) (u + v)
    ofRatio (s != t) num den
  | _, _ => nan

/-- The rounded quotient of two finite numbers with a nonzero divisor; no number otherwise. -/
def div (x y : Double) : Double :=
  match x.value, y.value with
  | .finite s m u, .finite t n v =>
    if n = 0 then nan
    else
      let (num, den) := ratio m (u - v)
      ofRatio (s != t) num (den * n)
  | _, _ => nan

end Double

namespace Single

def value (x : Single) : Value := Format.single.value x.bits.toNat

/-- The same number as a double; every single has one. -/
def toDouble (x : Single) : Double :=
  match x.value with
  | .nan => .nan
  | .infinite negative => ⟨UInt64.ofNat ((if negative then Format.double.signBit else 0) +
      Format.double.infinityBits)⟩
  | .finite negative m unit =>
    let (num, den) := ratio m unit
    .ofRatio negative num den

end Single

end Uplink.Number
