/-!
# Numbers on the wire

Varints carry seven bits a byte, lowest first, with the top bit set on all bytes but the last; a
64-bit number takes at most ten bytes. Fixed-width numbers are little-endian. Readers give the
value and the bytes after it.
-/

namespace Uplink.Wire

/-- The varint of a number in at most so many bytes. -/
def varintUpTo : Nat → Nat → List UInt8
  | 0, _ => []
  | places + 1, n =>
    if n < 128 then [UInt8.ofNat n]
    else UInt8.ofNat (n % 128 + 128) :: varintUpTo places (n / 128)

/-- The varint of a number of 64 bits. -/
def varint (n : Nat) : List UInt8 := varintUpTo 10 n

/-- Read a varint of at most so many bytes. The tenth byte of ten carries a single bit. -/
def readVarintUpTo : Nat → List UInt8 → Option (Nat × List UInt8)
  | 0, _ => none
  | _ + 1, [] => none
  | places + 1, b :: bs =>
    if b.toNat < 128 then
      if places = 0 ∧ 2 ≤ b.toNat then none else some (b.toNat, bs)
    else (readVarintUpTo places bs).map fun (high, rest) => (b.toNat - 128 + 128 * high, rest)

def readVarint (bs : List UInt8) : Option (Nat × List UInt8) := readVarintUpTo 10 bs

/-- A number in so many bytes, lowest first. -/
def fixed : Nat → Nat → List UInt8
  | 0, _ => []
  | width + 1, n => UInt8.ofNat (n % 256) :: fixed width (n / 256)

/-- The number that bytes spell, lowest first. -/
def ofFixed : List UInt8 → Nat
  | [] => 0
  | b :: bs => b.toNat + 256 * ofFixed bs

/-- The first bytes, if there are so many, and the rest. -/
def readBytes (count : Nat) (bs : List UInt8) : Option (List UInt8 × List UInt8) :=
  if count ≤ bs.length then some (bs.take count, bs.drop count) else none

/-! ## Reading undoes writing -/

@[simp] theorem length_fixed (width n : Nat) : (fixed width n).length = width := by
  induction width generalizing n <;> simp [fixed, *]

theorem ofFixed_fixed (width n : Nat) (h : n < Nat.pow 256 width) :
    ofFixed (fixed width n) = n := by
  induction width generalizing n with
  | zero =>
    have h0 : n = 0 := Nat.lt_one_iff.1 h
    simp [fixed, ofFixed, h0]
  | succ width ih =>
    have hd : n / 256 < Nat.pow 256 width := (Nat.div_lt_iff_lt_mul (by decide)).2 h
    simp only [fixed, ofFixed, ih _ hd, UInt8.toNat_ofNat']
    omega

theorem readBytes_append (bs rest : List UInt8) :
    readBytes bs.length (bs ++ rest) = some (bs, rest) := by
  simp [readBytes]

theorem readVarintUpTo_varintUpTo (places n : Nat) (rest : List UInt8)
    (h : n < 2 * Nat.pow 128 places) :
    readVarintUpTo (places + 1) (varintUpTo (places + 1) n ++ rest) = some (n, rest) := by
  induction places generalizing n with
  | zero =>
    have h2 : n < 2 := h
    have h1 : n % 256 = n := by omega
    simp [varintUpTo, readVarintUpTo, show n < 128 by omega, h1]; omega
  | succ places ih =>
    rw [varintUpTo]
    split
    · next hn =>
      have h1 : n % 256 = n := by omega
      simp [readVarintUpTo, h1, hn]
    · next hn =>
      have hd : n / 128 < 2 * Nat.pow 128 places := by
        have hpow : Nat.pow 128 (places + 1) = Nat.pow 128 places * 128 := rfl
        omega
      have h1 : (n % 128 + 128) % 256 = n % 128 + 128 := by omega
      simp only [List.cons_append, readVarintUpTo, UInt8.toNat_ofNat', Nat.reducePow, h1]
      rw [if_neg (by omega), ih _ hd]
      simp; omega

theorem readVarint_varint (n : Nat) (rest : List UInt8) (h : n < UInt64.size) :
    readVarint (varint n ++ rest) = some (n, rest) :=
  readVarintUpTo_varintUpTo 9 n rest h

end Uplink.Wire
