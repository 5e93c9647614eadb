import Uplink.Json.Value

/-!
# Reading JSON

A reader takes a value off the front of a list of characters. Values are read with or without
checks: a value that is only passed over may hold numbers that are too large and surrogates that
stand alone. Both have the same grammar.

A number is read as a significand of at most 64 bits and a power of ten, and their double product
or quotient is its value. Digits that no longer fit the significand count as places only.
-/

namespace Uplink.Json

open Number

def isSpace (c : Char) : Bool := c == ' ' || c == '\t' || c == '\n' || c == '\r'

def skipSpace (cs : List Char) : List Char := cs.dropWhile isSpace

/-! ## Numbers -/

/-- The largest significand, and the largest exponent that is not just "too large". -/
def maxSignificand : Nat := UInt64.size - 1

def maxExponent : Nat := Int32.maxValue.toNatClampNeg

def digitOf (c : Char) : Nat := c.toNat - '0'.toNat

/-- Take up digits while the number fits a bound. Gives the number, how many digits were taken and
the characters after these. -/
def takeDigits (bound : Nat) : Nat → Nat → List Char → Nat × Nat × List Char
  | n, count, [] => (n, count, [])
  | n, count, c :: cs =>
    if c.isDigit && n * 10 + digitOf c ≤ bound then
      takeDigits bound (n * 10 + digitOf c) (count + 1) cs
    else (n, count, c :: cs)

/-- The largest power of ten that has a double. -/
def maxPower : Nat := 308

/-- Scale a double by a power of ten, in steps of at most `maxPower` when the power is negative.
There is no result if it would be infinite. The number is fuel. -/
def scale : Nat → Double → Int → Option Double
  | 0, x, _ => some x
  | steps + 1, x, exponent =>
    if exponent.natAbs ≤ maxPower then
      if 0 ≤ exponent then
        let product := x.mul (.ofInt (Nat.pow 10 exponent.natAbs))
        if product.isInfinite then none else some product
      else some (x.div (.ofInt (Nat.pow 10 exponent.natAbs)))
    else if x.isZero then some x
    else if 0 ≤ exponent then none
    else scale steps (x.div (.ofInt (Nat.pow 10 maxPower))) (exponent + maxPower)

/-- The double of a significand and a power of ten. A nonzero significand is scaled to zero after
three steps at most. -/
def ofParts (negative : Bool) (significand : Nat) (exponent : Int) : Option Double :=
  (scale 5 (.ofInt significand) exponent).map fun x => if negative then x.neg else x

/-- A number, or the fact that it has too large a value. -/
abbrev Measured := Option Json

def readExponent (negative : Bool) (significand : Nat) (exponent : Int) (cs : List Char) :
    Option (Measured × List Char) :=
  let (down, cs) := match cs with
    | '+' :: cs => (false, cs)
    | '-' :: cs => (true, cs)
    | cs => (false, cs)
  match takeDigits maxExponent 0 0 cs with
  | (_, 0, _) => none
  | (n, _, rest) =>
    match rest with
    | c :: _ =>
      -- The exponent is too large to be counted, so that only its sign matters.
      if c.isDigit then
        let zero := if negative then Double.zero.neg else Double.zero
        some (if significand ≠ 0 ∧ !down then none else some (double zero),
          rest.dropWhile Char.isDigit)
      else some (finish n down, rest)
    | [] => some (finish n down, rest)
where
  finish (n : Nat) (down : Bool) : Measured :=
    (ofParts negative significand (if down then exponent - n else exponent + n)).map double

def readScale (negative : Bool) (significand : Nat) (exponent : Int) (cs : List Char) :
    Option (Measured × List Char) :=
  match cs with
  | 'e' :: cs | 'E' :: cs => readExponent negative significand exponent cs
  | cs => some ((ofParts negative significand exponent).map double, cs)

def readPlaces (negative : Bool) (significand : Nat) (exponent : Int) (cs : List Char) :
    Option (Measured × List Char) :=
  if (cs.head?.map Char.isDigit).getD false then
    -- Behind the point, digits that the significand has no room for are passed over.
    let (n, count, rest) := takeDigits maxSignificand significand 0 cs
    readScale negative n (exponent - count) (rest.dropWhile Char.isDigit)
  else none

/-- A number that has no point and no exponent. Zero with a sign, and integers below the range of a
signed number, are doubles. -/
def whole (negative : Bool) (significand : Nat) : Json :=
  if !negative then int significand
  else if significand = 0 ∨ Int64.minValue.toInt.natAbs < significand then
    double (Double.ofInt significand).neg
  else int (-significand)

def readUnsigned (negative : Bool) (cs : List Char) : Option (Measured × List Char) :=
  let leadingZero := cs.head? = some '0' && ((cs.tail.head?.map Char.isDigit).getD false)
  match takeDigits maxSignificand 0 0 cs with
  | (_, 0, _) => none
  | (n, _, rest) =>
    if leadingZero then none
    else
      -- Digits that the significand has no room for count as powers of ten.
      let more := rest.takeWhile Char.isDigit
      match rest.drop more.length with
      | '.' :: cs => readPlaces negative n more.length cs
      | 'e' :: cs | 'E' :: cs => readExponent negative n more.length cs
      | cs =>
        if more.isEmpty then some (some (whole negative n), cs)
        else some ((ofParts negative n more.length).map double, cs)

/-- A number. Without checks a number that is too large is passed over. -/
def readNumber (checked : Bool) (cs : List Char) : Option (Json × List Char) := do
  let (measured, rest) ← match cs with
    | '-' :: cs => readUnsigned true cs
    | cs => readUnsigned false cs
  match measured with
  | some v => some (v, rest)
  | none => if checked then none else some (null, rest)

/-! ## Texts -/

def hexValue? (c : Char) : Option Nat :=
  if c.isDigit then some (c.toNat - '0'.toNat)
  else if 'a' ≤ c ∧ c ≤ 'f' then some (c.toNat - 'a'.toNat + 10)
  else if 'A' ≤ c ∧ c ≤ 'F' then some (c.toNat - 'A'.toNat + 10)
  else none

def readHex : List Char → Option (Nat × List Char)
  | a :: b :: c :: d :: rest => do
    let a ← hexValue? a
    let b ← hexValue? b
    let c ← hexValue? c
    let d ← hexValue? d
    some (a * 4096 + b * 256 + c * 16 + d, rest)
  | _ => none

def isHighSurrogate (n : Nat) : Bool := 0xD800 ≤ n && n < 0xDC00

def isLowSurrogate (n : Nat) : Bool := 0xDC00 ≤ n && n < 0xE000

/-- The character of a code after `\u`. -/
def readCode (checked : Bool) (cs : List Char) : Option (Char × List Char) := do
  let (n, rest) ← readHex cs
  -- What is passed over may have halves of characters that do not fit together.
  if !checked then some (Char.ofNat n, rest)
  else if isLowSurrogate n then none
  else if isHighSurrogate n then
    -- A character past U+FFFF takes two codes.
    match rest with
    | '\\' :: 'u' :: rest => do
      let (m, rest) ← readHex rest
      if isLowSurrogate m then
        some (Char.ofNat (0x10000 + (n - 0xD800) * 1024 + (m - 0xDC00)), rest)
      else none
    | _ => none
  else some (Char.ofNat n, rest)

/-- The character of an escape, after the backslash. -/
def readEscape (checked : Bool) : List Char → Option (Char × List Char)
  | '"' :: cs => some ('"', cs)
  | '\\' :: cs => some ('\\', cs)
  | '/' :: cs => some ('/', cs)
  | 'b' :: cs => some ('\x08', cs)
  | 'f' :: cs => some ('\x0c', cs)
  | 'n' :: cs => some ('\n', cs)
  | 'r' :: cs => some ('\r', cs)
  | 't' :: cs => some ('\t', cs)
  | 'u' :: cs => readCode checked cs
  | _ => none

/-- The characters of a text up to its closing quote. The number is fuel; each step takes at least
one character. -/
def readText (checked : Bool) : Nat → List Char → Option (List Char × List Char)
  | _, [] => none
  | 0, _ => none
  | fuel + 1, c :: cs =>
    if c = '"' then some ([], cs)
    else if c = '\\' then do
      let (c, cs) ← readEscape checked cs
      let (text, rest) ← readText checked fuel cs
      some (c :: text, rest)
    -- Control characters have to be escaped.
    else if c.toNat < 32 then none
    else do
      let (text, rest) ← readText checked fuel cs
      some (c :: text, rest)

def readString (checked : Bool) (cs : List Char) : Option (String × List Char) :=
  (readText checked cs.length cs).map fun (text, rest) => (String.ofList text, rest)

/-! ## Values -/

def readWord (word : String) (v : Json) (cs : List Char) : Option (Json × List Char) :=
  if word.toList.isPrefixOf cs then some (v, cs.drop word.length) else none

mutual

/-- A value after spaces. The first number is fuel, the second is how many arrays and objects may
still be opened. -/
def readValue (checked : Bool) : Nat → Nat → List Char → Option (Json × List Char)
  | 0, _, _ => none
  | fuel + 1, depth, cs =>
    match skipSpace cs with
    | 'n' :: cs => readWord "ull" null cs
    | 't' :: cs => readWord "rue" (bool true) cs
    | 'f' :: cs => readWord "alse" (bool false) cs
    | '"' :: cs => (readString checked cs).map fun (s, rest) => (string s, rest)
    | '[' :: cs =>
      if depth = 0 then none
      else match skipSpace cs with
        | ']' :: cs => some (array [], cs)
        | cs => (readItems checked fuel (depth - 1) cs).map fun (vs, rest) => (array vs, rest)
    | '\x7b' :: cs =>
      if depth = 0 then none
      else match skipSpace cs with
        | '\x7d' :: cs => some (object [], cs)
        | cs => (readMembers checked fuel (depth - 1) cs).map fun (ms, rest) => (object ms, rest)
    | cs => readNumber checked cs

/-- The items of an array up to its end; there is at least one. -/
def readItems (checked : Bool) : Nat → Nat → List Char → Option (List Json × List Char)
  | 0, _, _ => none
  | fuel + 1, depth, cs => do
    let (v, cs) ← readValue checked fuel depth cs
    match skipSpace cs with
    | ',' :: cs =>
      let (vs, rest) ← readItems checked fuel depth cs
      some (v :: vs, rest)
    | ']' :: cs => some ([v], cs)
    | _ => none

/-- The members of an object up to its end; there is at least one. -/
def readMembers (checked : Bool) :
    Nat → Nat → List Char → Option (List (String × Json) × List Char)
  | 0, _, _ => none
  | fuel + 1, depth, cs => do
    let (name, cs) ← readName checked cs
    let (v, cs) ← readValue checked fuel depth cs
    match skipSpace cs with
    | ',' :: cs =>
      let (ms, rest) ← readMembers checked fuel depth cs
      some ((name, v) :: ms, rest)
    | '\x7d' :: cs => some ([(name, v)], cs)
    | _ => none
where
  readName (checked : Bool) (cs : List Char) : Option (String × List Char) :=
    match skipSpace cs with
    | '"' :: cs => do
      let (name, cs) ← readString checked cs
      match skipSpace cs with
      | ':' :: cs => some (name, cs)
      | _ => none
    | _ => none

end

/-- How many arrays and objects may be open at a time. -/
def maxDepth : Nat := 127

def fuelFor (cs : List Char) : Nat := 2 * cs.length + 2

def readChars (cs : List Char) : Option Json := do
  let (v, rest) ← readValue true (fuelFor cs) maxDepth cs
  if (skipSpace rest).isEmpty then some v else none

def read (text : String) : Option Json := readChars text.toList

end Uplink.Json
