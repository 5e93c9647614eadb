/-!
# Base64

The standard alphabet with padding. `encode` writes bytes, and `decode` reads only what `encode`
could have written: the padding must be there, and bits that the padding leaves unused must be
zero. Offsets in errors count bytes from zero.
-/

namespace Uplink.Base64

/-- Why bytes are no base64 text. -/
inductive Error where
  /-- A byte outside the alphabet, or padding that stands too early. -/
  | symbol (offset : Nat) (byte : UInt8)
  /-- A single symbol stands after the last group of four. -/
  | length (symbols : Nat)
  /-- The last symbol has bits that no byte takes up. -/
  | lastSymbol (offset : Nat) (byte : UInt8)
  /-- The last group is not filled up to four. -/
  | padding
deriving DecidableEq, Repr

def Error.message : Error → String
  | .symbol offset byte => s!"Invalid symbol {byte.toNat}, offset {offset}."
  | .length symbols => s!"Invalid input length: {symbols}"
  | .lastSymbol offset byte => s!"Invalid last symbol {byte.toNat}, offset {offset}."
  | .padding => "Invalid padding"

/-- The symbol for a number below 64. -/
def symbol (n : Nat) : Char :=
  if n < 26 then Char.ofNat ('A'.toNat + n)
  else if n < 52 then Char.ofNat ('a'.toNat + (n - 26))
  else if n < 62 then Char.ofNat ('0'.toNat + (n - 52))
  else if n = 62 then '+'
  else '/'

def value? (b : UInt8) : Option Nat :=
  let n := b.toNat
  if 'A'.toNat ≤ n ∧ n ≤ 'Z'.toNat then some (n - 'A'.toNat)
  else if 'a'.toNat ≤ n ∧ n ≤ 'z'.toNat then some (n - 'a'.toNat + 26)
  else if '0'.toNat ≤ n ∧ n ≤ '9'.toNat then some (n - '0'.toNat + 52)
  else if n = '+'.toNat then some 62
  else if n = '/'.toNat then some 63
  else none

def pad : UInt8 := 61

/-- The symbols of a list of bytes, three bytes to four symbols. -/
def encodeChars : List UInt8 → List Char
  | [] => []
  | [a] =>
    let n := a.toNat * 16
    [symbol (n / 64), symbol (n % 64), '=', '=']
  | [a, b] =>
    let n := (a.toNat * 256 + b.toNat) * 4
    [symbol (n / 4096), symbol (n / 64 % 64), symbol (n % 64), '=']
  | a :: b :: c :: rest =>
    let n := a.toNat * 65536 + b.toNat * 256 + c.toNat
    symbol (n / 262144) :: symbol (n / 4096 % 64) :: symbol (n / 64 % 64) :: symbol (n % 64) ::
      encodeChars rest

def encode (bs : List UInt8) : String :=
  String.ofList (encodeChars bs)

/-- The number a symbol stands for, or the error that it is none. -/
def valueAt (offset : Nat) (b : UInt8) : Except Error Nat :=
  match value? b with
  | some n => .ok n
  | none => .error (.symbol offset b)

/-- Full groups of four symbols, the first of which stands at the given offset. -/
def decodeGroups (offset : Nat) : List UInt8 → Except Error (List UInt8)
  | a :: b :: c :: d :: rest => do
    let x ← valueAt offset a
    let y ← valueAt (offset + 1) b
    let z ← valueAt (offset + 2) c
    let w ← valueAt (offset + 3) d
    let n := x * 262144 + y * 4096 + z * 64 + w
    let bytes ← decodeGroups (offset + 4) rest
    return UInt8.ofNat (n / 65536) :: UInt8.ofNat (n / 256 % 256) :: UInt8.ofNat (n % 256) :: bytes
  | _ => .ok []

/-- The symbols of the last group and the number of padding characters after them. Padding may
begin at the third place and nothing else may follow it. -/
def lastGroup (offset index : Nat) : List UInt8 → Except Error (List Nat × Nat)
  | [] => .ok ([], 0)
  | b :: bs =>
    if b = pad then
      if index < 2 then .error (.symbol (offset + index) b)
      else if bs.all (· == pad) then .ok ([], bs.length + 1)
      else .error (.symbol (offset + index) pad)
    else do
      let n ← valueAt (offset + index) b
      let (ns, pads) ← lastGroup offset (index + 1) bs
      return (n :: ns, pads)

/-- The bytes of the last group of symbols, which starts at the given offset. -/
def decodeLast (offset : Nat) (bs : List UInt8) : Except Error (List UInt8) := do
  let (ns, pads) ← lastGroup offset 0 bs
  if ns.length < 2 then throw (.length (offset + ns.length))
  if (ns.length + pads) % 4 ≠ 0 then throw .padding
  let unused := Error.lastSymbol (offset + ns.length - 1) (bs.getD (ns.length - 1) 0)
  match ns with
  | [x, y] =>
    let n := x * 64 + y
    if n % 16 ≠ 0 then throw unused
    return [UInt8.ofNat (n / 16)]
  | [x, y, z] =>
    let n := x * 4096 + y * 64 + z
    if n % 4 ≠ 0 then throw unused
    return [UInt8.ofNat (n / 1024), UInt8.ofNat (n / 4 % 256)]
  | _ => decodeGroups offset bs

/-- The offset at which the last group of up to four symbols starts. -/
def lastStart (count : Nat) : Nat :=
  if count % 4 = 0 then count - 4 else count - count % 4

/-- The bytes that a base64 text stands for. A single stray byte at the very end, such as a line
break, is reported before any earlier fault. -/
def decode (bs : List UInt8) : Except Error (List UInt8) :=
  match bs.getLast? with
  | none => .ok []
  | some last =>
    if bs.length % 4 = 1 ∧ last ≠ pad ∧ value? last = none then
      .error (.symbol (bs.length - 1) last)
    else do
      let start := lastStart bs.length
      let front ← decodeGroups 0 (bs.take start)
      let back ← decodeLast start (bs.drop start)
      return front ++ back

end Uplink.Base64
