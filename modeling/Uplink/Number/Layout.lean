import Uplink.Number.Shortest

/-!
# How numbers are written

Two ways to write a binary number with its shortest digits. `plain` never uses an exponent and
writes whole numbers without a point. `json` writes every number as a JSON number that is
recognisably fractional: with a point, or with an exponent outside the middle range.
-/

namespace Uplink.Number

def digitChars (n : Nat) : List Char := Nat.toDigits 10 n

def zeros (n : Nat) : List Char := List.replicate n '0'

/-- Digits with a point so many places from their right end, and no point if that is none. -/
def positional (d : Decimal) : List Char :=
  let ds := digitChars d.digits
  let places := (-d.exponent).toNat
  if places = 0 then ds ++ zeros d.exponent.toNat
  else if places < ds.length then ds.take (ds.length - places) ++ '.' :: ds.drop (ds.length - places)
  else '0' :: '.' :: zeros (places - ds.length) ++ ds

def signed (negative : Bool) (cs : List Char) : String :=
  String.ofList (if negative then '-' :: cs else cs)

/-- A number in full, with no exponent. A tie between two shortest forms goes up. -/
def Format.plain (f : Format) (bits : Nat) : String :=
  match f.value bits with
  | .nan => "NaN"
  | .infinite negative => signed negative ['i', 'n', 'f']
  | .finite negative m unit =>
    if m = 0 then signed negative ['0']
    else signed negative (positional (f.shortest .up m unit))

def Double.plain (x : Double) : String := Format.double.plain x.bits.toNat

def Single.plain (x : Single) : String := Format.single.plain x.bits.toNat

def exponentChars (e : Int) : List Char :=
  'e' :: (if e < 0 then '-' else '+') :: digitChars e.natAbs

/-- Digits in the layout of JSON numbers. -/
def jsonChars (d : Decimal) : List Char :=
  let ds := digitChars d.digits
  let first : Int := d.exponent + ds.length - 1
  -- From `1e-5` up to but not including `1e16` there is no exponent, but always a point.
  if -5 ≤ first ∧ first < 16 then
    if 0 ≤ d.exponent then positional d ++ ['.', '0'] else positional d
  else
    match ds with
    | [] => []
    | [c] => c :: exponentChars first
    | c :: cs => c :: '.' :: cs ++ exponentChars first

/-- A finite number as a JSON number, if it is finite. -/
def Double.json? (x : Double) : Option String :=
  match x.value with
  | .finite negative m unit =>
    if m = 0 then some (signed negative ['0', '.', '0'])
    else some (signed negative (jsonChars (Format.double.shortest .even m unit)))
  | _ => none

end Uplink.Number
