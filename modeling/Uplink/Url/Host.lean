import Uplink.Text.Levels
import Uplink.Text.Utf8
import Uplink.Url.Punycode

/-!
# Hosts of addresses

A host is an IPv6 address in brackets, an IPv4 address, a domain name, or, under schemes that give
hosts no meaning of their own, any text without separators. Every host has one spelling.
-/

namespace Uplink.Url

/-- Why a text is no address. -/
inductive Error where
  | relative
  | emptyHost
  | port
  | ipv4
  | ipv6
  | domainCharacter
  | internationalDomain
deriving DecidableEq, Repr

def Error.message : Error → String
  | .relative => "relative URL without a base"
  | .emptyHost => "empty host"
  | .port => "invalid port number"
  | .ipv4 => "invalid IPv4 address"
  | .ipv6 => "invalid IPv6 address"
  | .domainCharacter => "invalid domain character"
  | .internationalDomain => "invalid international domain name"

def hexValue? (c : Char) : Option Nat :=
  if c.isDigit then some (c.toNat - '0'.toNat)
  else if 'a' ≤ c ∧ c ≤ 'f' then some (c.toNat - 'a'.toNat + 10)
  else if 'A' ≤ c ∧ c ≤ 'F' then some (c.toNat - 'A'.toNat + 10)
  else none

/-- A number in a base, if all characters are digits of it. -/
def numberIn? (base : Nat) (cs : List Char) : Option Nat :=
  cs.foldlM (fun n c => do
    let d ← hexValue? c
    if d < base then some (n * base + d) else none) 0

/-! ## IPv6 -/

/-- One of the eight pieces: up to four hexadecimal digits. -/
def piece? (cs : List Char) : Option Nat :=
  if cs.isEmpty ∨ 4 < cs.length then none else numberIn? 16 cs

/-- A byte in decimal digits, without zeros in front. -/
def decimalByte? (cs : List Char) : Option Nat :=
  if cs.isEmpty ∨ 3 < cs.length ∨ (1 < cs.length ∧ cs.head? = some '0') then none
  else (numberIn? 10 cs).filter (· < 256)

/-- Four bytes with points between them, as two pieces. -/
def bytePieces? (cs : List Char) : Option (List Nat) :=
  match Levels.splitChars ['.'] cs with
  | [a, b, c, d] => do
    let a ← decimalByte? a
    let b ← decimalByte? b
    let c ← decimalByte? c
    let d ← decimalByte? d
    some [a * 256 + b, c * 256 + d]
  | _ => none

/-- Pieces with colons between them. At the end of an address four bytes may stand for two. -/
def pieces? (atEnd : Bool) (cs : List Char) : Option (List Nat) :=
  if cs.isEmpty then some []
  else go (Levels.splitChars [':'] cs)
where
  go : List (List Char) → Option (List Nat)
    | [] => some []
    | [last] =>
      if atEnd ∧ last.contains '.' then bytePieces? last else (piece? last).map fun p => [p]
    | part :: parts => do
      let p ← piece? part
      some (p :: (← go parts))

/-- The eight pieces of an address. -/
def ipv6? (cs : List Char) : Option (List Nat) :=
  match Levels.cutChars [':', ':'] cs with
  | none => (pieces? true cs).filter fun ps => ps.length == 8
  | some (before, after) => do
    let front ← pieces? false before
    let back ← pieces? true after
    let known := front.length + back.length
    -- The two colons stand for at least one piece.
    if known ≤ 7 then some (front ++ List.replicate (8 - known) 0 ++ back) else none

/-- The place and the length of the first of the longest runs of zeros. -/
def longestZeros : Nat → List Nat → Nat × Nat
  | _, [] => (0, 0)
  | index, p :: ps =>
    let here := ((p :: ps).takeWhile (· == 0)).length
    let (place, length) := longestZeros (index + 1) ps
    if here ≠ 0 ∧ length ≤ here then (index, here) else (place, length)

/-- Pieces as text. -/
def ipv6Chars (ps : List Nat) : List Char :=
  let colons (ps : List Nat) : List Char :=
    [':'].intercalate (ps.map fun p => Nat.toDigits 16 p)
  let (place, length) := longestZeros 0 ps
  -- A single piece of zero is written.
  if length < 2 then colons ps
  else colons (ps.take place) ++ [':', ':'] ++ colons (ps.drop (place + length))

/-! ## IPv4 -/

/-- A number of an IPv4 address, in base 8 or 16 if it starts like one. -/
def ipv4Number? (cs : List Char) : Option Nat :=
  match cs with
  | [] => none
  | '0' :: 'x' :: rest | '0' :: 'X' :: rest => numberIn? 16 rest
  | '0' :: rest => numberIn? 8 rest
  | cs => numberIn? 10 cs

/-- The labels of a name, without the empty one after a final point. -/
def labels (name : List Char) : List (List Char) :=
  let parts := Levels.splitChars ['.'] name
  if parts.getLast? = some [] then parts.dropLast else parts

/-- The last label of a name is a number, so that the name is meant as an IPv4 address. -/
def endsInNumber (name : List Char) : Bool :=
  match (labels name).getLast? with
  | some last => !last.isEmpty && (last.all Char.isDigit || (ipv4Number? last).isSome)
  | none => false

/-- An address of up to four numbers, of which the last fills all remaining bytes. -/
def ipv4? (name : List Char) : Option Nat := do
  let numbers ← (labels name).mapM ipv4Number?
  let last ← numbers.getLast?
  let front := numbers.dropLast
  if 3 < front.length ∨ front.any (255 < ·) ∨ Nat.pow 256 (4 - front.length) ≤ last then none
  else some (front.foldr (fun n acc => n * Nat.pow 256 3 + acc / 256) 0 + last)

def ipv4Chars (address : Nat) : List Char :=
  ['.'].intercalate ([3, 2, 1, 0].map fun place =>
    Nat.toDigits 10 (address / Nat.pow 256 place % 256))

/-! ## Names -/

/-- A byte as a percent sign and two hexadecimal digits. -/
def percentByte (b : UInt8) : List Char :=
  let digit (n : Nat) := (Nat.digitChar n).toUpper
  ['%', digit (b.toNat / 16), digit (b.toNat % 16)]

/-- Any text as a host, with all that is not printable ASCII percent-encoded. -/
def opaqueChar (c : Char) : List Char :=
  if 0x20 ≤ c.toNat ∧ c.toNat < 0x7F then [c]
  else (Utf8.bytes (String.ofList [c])).flatMap percentByte

/-- The characters that no host contains. -/
def isForbidden (c : Char) : Bool :=
  c.toNat == 0 || "\t\n\r #/:<>?@[\\]^|".toList.contains c

/-- The characters that no domain name contains. Among them are the control characters after ASCII,
the blank that does not break a line, and the mark for what could not be read. -/
def isForbiddenInDomain (c : Char) : Bool :=
  let n := c.toNat
  n ≤ 0x20 || (0x7F ≤ n && n ≤ 0xA0) || n == 0xFFFD || "%#/:<>?@[\\]^|".toList.contains c

/-- Bytes with every percent code replaced by its byte. -/
def percentDecode : List UInt8 → List UInt8
  | 37 :: a :: b :: rest =>
    match hexValue? (Char.ofNat a.toNat), hexValue? (Char.ofNat b.toNat) with
    | some x, some y => UInt8.ofNat (x * 16 + y) :: percentDecode rest
    | _, _ => 37 :: percentDecode (a :: b :: rest)
  | b :: rest => b :: percentDecode rest
  | [] => []

/-- A letter in lower case, for the Latin, Greek and Cyrillic scripts. -/
def lower (c : Char) : Char :=
  let n := c.toNat
  if n < 0x80 then c.toLower
  else if (0xC0 ≤ n ∧ n ≤ 0xDE ∧ n ≠ 0xD7) ∨ (0x391 ≤ n ∧ n ≤ 0x3A9) ∨ (0x410 ≤ n ∧ n ≤ 0x42F) then
    Char.ofNat (n + 32)
  else if 0x400 ≤ n ∧ n ≤ 0x40F then Char.ofNat (n + 80)
  else if ((0x100 ≤ n ∧ n ≤ 0x137 ∧ n ≠ 0x130) ∨ (0x14A ≤ n ∧ n ≤ 0x177)) ∧ n % 2 = 0 then
    Char.ofNat (n + 1)
  else if ((0x139 ≤ n ∧ n ≤ 0x148) ∨ (0x179 ≤ n ∧ n ≤ 0x17E)) ∧ n % 2 = 1 then Char.ofNat (n + 1)
  else c

/-- The ASCII spelling of some label that has other characters, all of them in lower case. -/
def isSpelling (spelling : List Char) : Bool :=
  match Punycode.decode? spelling with
  | some label =>
    label.any (!Punycode.isAscii ·) && label.all fun c => lower c == c && !isForbiddenInDomain c
  | none => false

/-- A label in ASCII. -/
def asciiLabel (label : List Char) : Except Error (List Char) :=
  if !label.all Punycode.isAscii then .ok ("xn--".toList ++ Punycode.encode label)
  else match label with
    | 'x' :: 'n' :: '-' :: '-' :: spelling =>
      -- What is marked as the spelling of a label must be one.
      if isSpelling spelling then .ok label else .error .internationalDomain
    | _ => .ok label

def domain (cs : List Char) : Except Error (List Char) :=
  match Utf8.ofBytes? (percentDecode (Utf8.bytes (String.ofList cs))) with
  | none => .error .internationalDomain
  | some name =>
    let name := name.toList.map lower
    if name.any isForbiddenInDomain then .error .internationalDomain
    else do
      let labels ← (Levels.splitChars ['.'] name).mapM asciiLabel
      return ['.'].intercalate labels

def bracketed (cs : List Char) : Except Error (List Char) :=
  if cs.getLast? = some ']' then
    match ipv6? cs.dropLast with
    | some ps => .ok ('[' :: ipv6Chars ps ++ [']'])
    | none => .error .ipv6
  else .error .ipv6

/-- The host of a scheme that gives hosts no meaning. It may be empty. -/
def opaqueHost (cs : List Char) : Except Error (List Char) :=
  match cs with
  | '[' :: rest => bracketed rest
  | cs => if cs.any isForbidden then .error .domainCharacter else .ok (cs.flatMap opaqueChar)

/-- The host of a scheme whose hosts are machines. -/
def machineHost (cs : List Char) : Except Error (List Char) :=
  match cs with
  | '[' :: rest => bracketed rest
  | cs => do
    let name ← domain cs
    if name.isEmpty then throw .emptyHost
    if endsInNumber name then
      match ipv4? name with
      | some address => return ipv4Chars address
      | none => throw .ipv4
    return name

end Uplink.Url
