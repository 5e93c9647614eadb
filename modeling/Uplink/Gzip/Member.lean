import Uplink.Gzip.Checksum
import Uplink.Gzip.Inflate
import Uplink.Wire.Varint

/-!
# Gzip members

A member is a header, compressed data, and the checksum and length of what the data expands to.
`decompress` reads the first member of its input and leaves the rest unread; `compress` writes a
member whose data is stored in blocks as it is. Payloads may be packed by any `Packer`.
-/

namespace Uplink.Gzip

open Wire

/-- The two bytes with which every member starts. -/
def magic : List UInt8 := [0x1F, 0x8B]

def isGzip (bs : List UInt8) : Bool := magic.isPrefixOf bs

/-- The most bytes that a stored block holds. -/
def maxStored : Nat := 65535

def storedBlock (isLast : Bool) (bs : List UInt8) : List UInt8 :=
  (if isLast then 1 else 0) :: fixed 2 bs.length ++ fixed 2 (maxStored - bs.length) ++ bs

/-- Stored blocks for bytes, all full but the last. -/
def storedBlocks : Nat → List UInt8 → List UInt8
  | 0, bs => storedBlock true bs
  | blocks + 1, bs =>
    if bs.length ≤ maxStored then storedBlock true bs
    else storedBlock false (bs.take maxStored) ++ storedBlocks blocks (bs.drop maxStored)

/-- The header of members written here: deflate data, no optional parts, no time, and a system
that is not named. -/
def header : List UInt8 := magic ++ [8, 0, 0, 0, 0, 0, 0, 255]

def compress (bs : List UInt8) : List UInt8 :=
  header ++ storedBlocks (bs.length / maxStored) bs ++ fixed 4 (crc bs).toNat ++
    fixed 4 (bs.length % UInt32.size)

/-- Pass over bytes up to and including a zero byte, with at most so many bytes before it. -/
def skipZeroEnded : Nat → List UInt8 → Option (List UInt8)
  | _, [] => none
  | room, b :: bs =>
    if b = 0 then some bs
    else match room with
      | 0 => none
      | room + 1 => skipZeroEnded room bs

/-- The most bytes that a name or a comment in a header may have. -/
def maxHeaderText : Nat := 65535

def skipIf (flag : Bool) (skip : List UInt8 → Option (List UInt8)) (bs : List UInt8) :
    Option (List UInt8) :=
  if flag then skip bs else some bs

/-- The bytes after the header: after the ten fixed bytes come, as the flags say, an extra field, a
name, a comment and a checksum of all these. -/
def skipHeader (bs : List UInt8) : Option (List UInt8) := do
  let (start, rest) ← readBytes 10 bs
  let flags := (start.getD 3 0).toNat
  if start.take 3 ≠ magic ++ [8] ∨ 32 ≤ flags then none
  let rest ← skipIf (flags.testBit 2) (fun rest => do
    let (count, rest) ← readBytes 2 rest
    let (_, rest) ← readBytes (ofFixed count) rest
    some rest) rest
  let rest ← skipIf (flags.testBit 3) (skipZeroEnded maxHeaderText) rest
  let rest ← skipIf (flags.testBit 4) (skipZeroEnded maxHeaderText) rest
  skipIf (flags.testBit 1) (fun rest => do
    let (sum, after) ← readBytes 2 rest
    if ofFixed sum = (crc (bs.take (bs.length - rest.length))).toNat % 65536 then some after
    else none) rest

def decompress (bs : List UInt8) : Option (List UInt8) := do
  let (out, rest) ← inflate (← skipHeader bs)
  let (sum, rest) ← readBytes 4 rest
  let (size, _) ← readBytes 4 rest
  if ofFixed sum = (crc out).toNat ∧ ofFixed size = out.length % UInt32.size then some out else none

/-- What packs bytes into members and unpacks members. -/
structure Packer where
  compress : List UInt8 → List UInt8
  decompress : List UInt8 → Option (List UInt8)

def Packer.storing : Packer := ⟨Gzip.compress, Gzip.decompress⟩

end Uplink.Gzip
