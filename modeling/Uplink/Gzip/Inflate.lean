/-!
# Compressed data

Deflate data is a sequence of blocks over a stream of bits, lowest bit of each byte first. A block
is stored as it is, or coded with prefix codes for literal bytes, for lengths and for distances
back into what has been written so far. `inflate` gives what the blocks expand to and the bytes
after the last block.
-/

namespace Uplink.Gzip

abbrev Bits := List Bool

/-- The bits of a byte, lowest first. -/
def byteBits (b : UInt8) : Bits :=
  (List.range 8).map b.toNat.testBit

def bitsOf (bs : List UInt8) : Bits := bs.flatMap byteBits

/-- The number that bits spell, lowest first. -/
def ofBits : Bits → Nat
  | [] => 0
  | b :: bs => b.toNat + 2 * ofBits bs

def readBits (count : Nat) (bits : Bits) : Option (Nat × Bits) :=
  let taken := bits.take count
  if taken.length = count then some (ofBits taken, bits.drop count) else none

/-! ## Prefix codes -/

/-- A prefix code: how many symbols have codes of each length from 1 on, and the symbols in the
order of their codes. -/
structure Code where
  counts : List Nat
  symbols : Array Nat
deriving Repr

/-- The code in which symbol `i` has a code of `lengths[i]` bits, or none if that is 0. Codes of
one length are consecutive and follow the codes that are shorter. -/
def Code.ofLengths (lengths : List Nat) : Code where
  counts := (List.range 15).map fun l => lengths.count (l + 1)
  symbols := ((List.range 15).flatMap fun l =>
    (lengths.zipIdx.filter fun e => e.1 == l + 1).map (·.2)).toArray

/-- The room that codes of the given lengths leave, in codes of the length before the first. -/
def Code.room : List Nat → Int → Int
  | [], room => room
  | count :: counts, room => Code.room counts (2 * room - count)

/-- No string of bits may have two meanings, and every string of bits must have one unless the
code has a single symbol or none. -/
def Code.isUsable (c : Code) : Bool :=
  let room := Code.room c.counts 1
  room == 0 || c.symbols.size ≤ 1

/-- Read a symbol. `first` is the first code of the present length and `index` the number of
symbols with shorter codes. -/
def Code.readFrom (symbols : Array Nat) : List Nat → Nat → Nat → Nat → Bits → Option (Nat × Bits)
  | [], _, _, _, _ => none
  | _, _, _, _, [] => none
  | count :: counts, code, first, index, b :: bits =>
    let code := code + b.toNat
    if code < first + count then
      (symbols[index + (code - first)]?).map fun s => (s, bits)
    else
      readFrom symbols counts (2 * code) (2 * (first + count)) (index + count) bits

def Code.read (c : Code) (bits : Bits) : Option (Nat × Bits) :=
  Code.readFrom c.symbols c.counts 0 0 0 bits

/-! ## Blocks -/

def fixedLiterals : Code :=
  Code.ofLengths (List.replicate 144 8 ++ List.replicate 112 9 ++ List.replicate 24 7 ++
    List.replicate 8 8)

def fixedDistances : Code := Code.ofLengths (List.replicate 32 5)

/-- The smallest length of a length symbol and the number of extra bits. -/
def lengthTable : Array (Nat × Nat) :=
  #[(3, 0), (4, 0), (5, 0), (6, 0), (7, 0), (8, 0), (9, 0), (10, 0), (11, 1), (13, 1), (15, 1),
    (17, 1), (19, 2), (23, 2), (27, 2), (31, 2), (35, 3), (43, 3), (51, 3), (59, 3), (67, 4),
    (83, 4), (99, 4), (115, 4), (131, 5), (163, 5), (195, 5), (227, 5), (258, 0)]

/-- The smallest distance of a distance symbol and the number of extra bits. -/
def distanceTable : Array (Nat × Nat) :=
  #[(1, 0), (2, 0), (3, 0), (4, 0), (5, 1), (7, 1), (9, 2), (13, 2), (17, 3), (25, 3), (33, 4),
    (49, 4), (65, 5), (97, 5), (129, 6), (193, 6), (257, 7), (385, 7), (513, 8), (769, 8),
    (1025, 9), (1537, 9), (2049, 10), (3073, 10), (4097, 11), (6145, 11), (8193, 12), (12289, 12),
    (16385, 13), (24577, 13)]

/-- Read a number that a table gives up to extra bits. -/
def readExtra (table : Array (Nat × Nat)) (symbol : Nat) (bits : Bits) : Option (Nat × Bits) := do
  let (base, extra) ← table[symbol]?
  let (n, bits) ← readBits extra bits
  some (base + n, bits)

/-- Write again what stands so far back, so many bytes of it. -/
def copyBack (distance : Nat) : Nat → Array UInt8 → Option (Array UInt8)
  | 0, out => some out
  | count + 1, out =>
    if distance ≤ out.size then
      -- Byte by byte, as the copy may overlap itself.
      match out[out.size - distance]? with
      | some b => copyBack distance count (out.push b)
      | none => none
    else none

/-- Expand the symbols of a block up to its end. -/
def readSymbols (literals distances : Code) :
    Nat → Bits → Array UInt8 → Option (Array UInt8 × Bits)
  | 0, _, _ => none
  | fuel + 1, bits, out => do
    let (symbol, bits) ← literals.read bits
    if symbol < 256 then readSymbols literals distances fuel bits (out.push (UInt8.ofNat symbol))
    else if symbol = 256 then some (out, bits)
    else
      let (length, bits) ← readExtra lengthTable (symbol - 257) bits
      let (back, bits) ← distances.read bits
      let (distance, bits) ← readExtra distanceTable back bits
      let out ← copyBack distance length out
      readSymbols literals distances fuel bits out

/-- The bits from the next byte boundary on. The stream ends at a boundary. -/
def alignBits (bits : Bits) : Bits := bits.drop (bits.length % 8)

def readStored : Nat → Bits → Array UInt8 → Option (Array UInt8 × Bits)
  | 0, bits, out => some (out, bits)
  | count + 1, bits, out => do
    let (b, bits) ← readBits 8 bits
    readStored count bits (out.push (UInt8.ofNat b))

/-- The order in which the lengths of the code for code lengths are listed. -/
def lengthOrder : List Nat :=
  [16, 17, 18, 0, 8, 7, 9, 6, 10, 5, 11, 4, 12, 3, 13, 2, 14, 1, 15]

def readTriples : Nat → Bits → Option (List Nat × Bits)
  | 0, bits => some ([], bits)
  | count + 1, bits => do
    let (n, bits) ← readBits 3 bits
    let (ns, bits) ← readTriples count bits
    some (n :: ns, bits)

/-- Read code lengths until there are `total`. A repetition must not go past the total. -/
def readLengths (code : Code) (total : Nat) : Nat → Bits → Array Nat → Option (Array Nat × Bits)
  | 0, _, _ => none
  | fuel + 1, bits, lengths =>
    if lengths.size = total then some (lengths, bits)
    else do
      let (symbol, bits) ← code.read bits
      -- 16 repeats the last length, 17 and 18 stand for runs of symbols that do not occur.
      let (value, count, bits) ← match symbol with
        | 16 => do
          let last ← lengths.back?
          let (n, bits) ← readBits 2 bits
          pure (last, n + 3, bits)
        | 17 => do
          let (n, bits) ← readBits 3 bits
          pure (0, n + 3, bits)
        | 18 => do
          let (n, bits) ← readBits 7 bits
          pure (0, n + 11, bits)
        | n => pure (n, 1, bits)
      if total < lengths.size + count then none
      else readLengths code total fuel bits (lengths ++ Array.replicate count value)

def readCodes (bits : Bits) : Option (Code × Code × Bits) := do
  let (literalCount, bits) ← readBits 5 bits
  let (distanceCount, bits) ← readBits 5 bits
  let (orderCount, bits) ← readBits 4 bits
  let literalCount := literalCount + 257
  let distanceCount := distanceCount + 1
  if 286 < literalCount ∨ 30 < distanceCount then none
  let (listed, bits) ← readTriples (orderCount + 4) bits
  let lengthOf (symbol : Nat) : Nat :=
    ((lengthOrder.zip listed).find? fun e => e.1 == symbol).elim 0 (·.2)
  let lengthCode := Code.ofLengths ((List.range 19).map lengthOf)
  if !lengthCode.isUsable then none
  -- Both codes are listed as one, so that a run of lengths may reach from the first to the second.
  let total := literalCount + distanceCount
  let (lengths, bits) ← readLengths lengthCode total (total + 1) bits #[]
  let literals := Code.ofLengths (lengths.toList.take literalCount)
  let distances := Code.ofLengths (lengths.toList.drop literalCount)
  if !(literals.isUsable && distances.isUsable) then none
  some (literals, distances, bits)

def readBlock (layout : Nat) (bits : Bits) (out : Array UInt8) : Option (Array UInt8 × Bits) :=
  match layout with
  | 0 => do
    let (count, bits) ← readBits 16 (alignBits bits)
    -- The number of bytes comes twice, the second time with all its bits turned over.
    let (complement, bits) ← readBits 16 bits
    if count + complement ≠ 65535 then none
    readStored count bits out
  -- Each symbol takes at least one bit, so the number of bits is fuel enough.
  | 1 => readSymbols fixedLiterals fixedDistances bits.length bits out
  | 2 => do
    let (literals, distances, bits) ← readCodes bits
    readSymbols literals distances bits.length bits out
  | _ => none

/-- Expand blocks up to the one that is marked as the last. Each takes at least three bits. -/
def readBlocks : Nat → Bits → Array UInt8 → Option (Array UInt8 × Bits)
  | 0, _, _ => none
  | fuel + 1, bits, out => do
    let (last, bits) ← readBits 1 bits
    let (layout, bits) ← readBits 2 bits
    let (out, bits) ← readBlock layout bits out
    if last = 1 then some (out, bits) else readBlocks fuel bits out

/-- What compressed data expands to, and how many bytes are left after it. -/
def inflate (bs : List UInt8) : Option (List UInt8 × List UInt8) := do
  let bits := bitsOf bs
  let (out, rest) ← readBlocks (bits.length + 1) bits #[]
  some (out.toList, bs.drop (bs.length - rest.length / 8))

end Uplink.Gzip
