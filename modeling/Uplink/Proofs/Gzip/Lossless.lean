import Uplink.Gzip.Member

/-!
# Nothing is lost in a gzip member

What a packer has to be like for payloads to survive it. The packer of this library, which stores
its data in blocks as it is, is like that for data of any length.
-/

namespace Uplink.Gzip

open Wire

/-- A packer loses nothing: its members look like members and expand to what was packed. -/
structure Packer.Lossless (z : Packer) : Prop where
  isGzip_compress : ∀ bs, isGzip (z.compress bs) = true
  decompress_compress : ∀ bs, z.decompress (z.compress bs) = some bs

/-! ## 1. Bits of bytes -/

theorem bitsOf_cons (b : UInt8) (bs : List UInt8) : bitsOf (b :: bs) = byteBits b ++ bitsOf bs :=
  List.flatMap_cons ..

theorem bitsOf_append (bs more : List UInt8) : bitsOf (bs ++ more) = bitsOf bs ++ bitsOf more :=
  List.flatMap_append ..

theorem length_byteBits (b : UInt8) : (byteBits b).length = 8 := by
  rw [byteBits, List.length_map, List.length_range]

theorem length_bitsOf (bs : List UInt8) : (bitsOf bs).length = 8 * bs.length := by
  induction bs with
  | nil => rfl
  | cons b bs ih =>
    rw [bitsOf_cons, List.length_append, length_byteBits, ih, List.length_cons]
    omega

theorem ofBits_append (bits more : Bits) :
    ofBits (bits ++ more) = ofBits bits + Nat.pow 2 bits.length * ofBits more := by
  induction bits with
  | nil => simp [ofBits]
  | cons b bits ih =>
    have hpow : Nat.pow 2 (bits.length + 1) = 2 * Nat.pow 2 bits.length := Nat.mul_comm _ 2
    rw [List.cons_append, ofBits, ofBits, ih, List.length_cons, hpow, Nat.mul_add, Nat.add_assoc,
      Nat.mul_assoc]

theorem ofBits_byteBits (b : UInt8) : ofBits (byteBits b) = b.toNat := by
  have h : ∀ n : Fin 256, ofBits ((List.range 8).map n.val.testBit) = n.val := by decide +kernel
  exact h ⟨b.toNat, b.toNat_lt⟩

theorem ofBits_bitsOf (bs : List UInt8) : ofBits (bitsOf bs) = ofFixed bs := by
  induction bs with
  | nil => rfl
  | cons b bs ih =>
    have hbyte : Nat.pow 2 8 = 256 := rfl
    rw [bitsOf_cons, ofBits_append, ofBits_byteBits, length_byteBits, ih, ofFixed, hbyte]

/-- Whole bytes are read as the number that they spell. -/
theorem readBits_bitsOf (count : Nat) (bs rest : List UInt8) (h : count = 8 * bs.length) :
    readBits count (bitsOf (bs ++ rest)) = some (ofFixed bs, bitsOf rest) := by
  have hl : (bitsOf bs).length = count := by rw [length_bitsOf, h]
  rw [readBits, bitsOf_append, List.take_left' hl, if_pos hl, List.drop_left' hl, ofBits_bitsOf]

theorem alignBits_append (pad : Bits) (hp : pad.length < 8) (bs : List UInt8) :
    alignBits (pad ++ bitsOf bs) = bitsOf bs := by
  have hl : (pad ++ bitsOf bs).length % 8 = pad.length := by
    rw [List.length_append, length_bitsOf]
    omega
  rw [alignBits, hl, List.drop_left]

/-! ## 2. Stored blocks -/

theorem readStored_bitsOf (bs rest : List UInt8) (out : Array UInt8) :
    readStored bs.length (bitsOf (bs ++ rest)) out = some (out ++ bs.toArray, bitsOf rest) := by
  induction bs generalizing out with
  | nil => simp [readStored]
  | cons b bs ih =>
    have hb : readBits 8 (bitsOf ([b] ++ (bs ++ rest))) = some (ofFixed [b], bitsOf (bs ++ rest)) :=
      readBits_bitsOf 8 [b] (bs ++ rest) rfl
    have hn : UInt8.ofNat (ofFixed [b]) = b := by simp [ofFixed]
    show (readBits 8 (bitsOf ([b] ++ (bs ++ rest))) >>= _) = _
    rw [hb]
    show readStored bs.length (bitsOf (bs ++ rest)) (out.push (UInt8.ofNat (ofFixed [b]))) = _
    rw [hn, ih]
    simp

/-- What is left of the first byte of a block is passed over. -/
theorem readBlock_stored (pad : Bits) (hp : pad.length < 8) (bs rest : List UInt8)
    (h : bs.length ≤ maxStored) (out : Array UInt8) :
    readBlock 0 (pad ++ bitsOf (fixed 2 bs.length ++ fixed 2 (maxStored - bs.length) ++ bs ++ rest))
      out = some (out ++ bs.toArray, bitsOf rest) := by
  have hm : maxStored < Nat.pow 256 2 := by decide
  have hcomplement : maxStored - bs.length < Nat.pow 256 2 :=
    Nat.lt_of_le_of_lt (Nat.sub_le _ _) hm
  have hc := readBits_bitsOf 16 (fixed 2 bs.length)
    (fixed 2 (maxStored - bs.length) ++ (bs ++ rest)) (by rw [length_fixed])
  have hd := readBits_bitsOf 16 (fixed 2 (maxStored - bs.length)) (bs ++ rest)
    (by rw [length_fixed])
  rw [ofFixed_fixed _ _ (Nat.lt_of_le_of_lt h hm)] at hc
  rw [ofFixed_fixed _ _ hcomplement] at hd
  have hn : bs.length + (maxStored - bs.length) = 65535 := Nat.add_sub_cancel' h
  rw [List.append_assoc, List.append_assoc]
  simp only [readBlock, alignBits_append pad hp, hc, hd, Option.bind_eq_bind, Option.bind_some, hn,
    ne_eq, not_true_eq_false, if_false, readStored_bitsOf]

theorem readBlocks_storedBlock (fuel : Nat) (isLast : Bool) (bs rest : List UInt8)
    (h : bs.length ≤ maxStored) (out : Array UInt8) :
    readBlocks (fuel + 1) (bitsOf (storedBlock isLast bs ++ rest)) out =
      if isLast then some (out ++ bs.toArray, bitsOf rest)
      else readBlocks fuel (bitsOf rest) (out ++ bs.toArray) := by
  have hb := readBlock_stored (List.replicate 5 false) (by decide) bs rest h out
  have hs : bitsOf (storedBlock isLast bs ++ rest) =
      isLast :: false :: false :: (List.replicate 5 false ++
        bitsOf (fixed 2 bs.length ++ fixed 2 (maxStored - bs.length) ++ bs ++ rest)) := by
    rw [storedBlock]
    cases isLast <;> rfl
  have hr (bits : Bits) : readBits 1 (isLast :: bits) = some (isLast.toNat, bits) := by
    simp [readBits, ofBits]
  have hl (bits : Bits) : readBits 2 (false :: false :: bits) = some (0, bits) := by
    simp [readBits, ofBits]
  rw [hs]
  simp only [readBlocks, hr, hl, hb, Option.bind_eq_bind, Option.bind_some]
  cases isLast <;> rfl

/-- The blocks are full but the last, so that one more than the full ones is enough. -/
theorem readBlocks_storedBlocks (blocks fuel : Nat) (bs rest : List UInt8) (out : Array UInt8)
    (hb : bs.length ≤ (blocks + 1) * maxStored) (hf : blocks < fuel) :
    readBlocks fuel (bitsOf (storedBlocks blocks bs ++ rest)) out =
      some (out ++ bs.toArray, bitsOf rest) := by
  induction blocks generalizing fuel bs out with
  | zero =>
    obtain ⟨fuel, rfl⟩ := Nat.exists_eq_succ_of_ne_zero (by omega : fuel ≠ 0)
    rw [storedBlocks, readBlocks_storedBlock _ _ _ _ (by omega), if_pos rfl]
  | succ blocks ih =>
    obtain ⟨fuel, rfl⟩ := Nat.exists_eq_succ_of_ne_zero (by omega : fuel ≠ 0)
    rw [storedBlocks]
    by_cases hl : bs.length ≤ maxStored
    · rw [if_pos hl, readBlocks_storedBlock _ _ _ _ hl, if_pos rfl]
    · have hsplit : (bs.take maxStored).toArray ++ (bs.drop maxStored).toArray = bs.toArray := by
        rw [List.append_toArray (bs.take maxStored), List.take_append_drop]
      have ht : (bs.take maxStored).length ≤ maxStored := by
        rw [List.length_take]
        omega
      have hd : (bs.drop maxStored).length ≤ (blocks + 1) * maxStored := by
        rw [List.length_drop]
        rw [Nat.add_mul (blocks + 1)] at hb
        omega
      rw [if_neg hl, List.append_assoc, readBlocks_storedBlock _ _ _ _ ht, if_neg (by decide),
        ih fuel _ _ hd (by omega), Array.append_assoc, hsplit]

theorem length_storedBlocks_ge (blocks : Nat) (bs : List UInt8)
    (h : blocks * maxStored ≤ bs.length) : blocks < (storedBlocks blocks bs).length := by
  induction blocks generalizing bs with
  | zero => simp [storedBlocks, storedBlock]
  | succ blocks ih =>
    have hm : maxStored = 65535 := rfl
    have hle : blocks ≤ blocks * maxStored := Nat.le_mul_of_pos_right _ (by decide)
    rw [Nat.add_mul] at h
    have hd := ih (bs.drop maxStored) (by rw [List.length_drop]; omega)
    rw [storedBlocks]
    split <;> simp only [storedBlock, List.length_append, List.length_cons, length_fixed] <;> omega

/-- Stored blocks expand to what they hold, and what follows them is left. -/
theorem inflate_storedBlocks (bs rest : List UInt8) :
    inflate (storedBlocks (bs.length / maxStored) bs ++ rest) = some (bs, rest) := by
  have hm : 0 < maxStored := by decide
  have hlt : bs.length < (bs.length / maxStored + 1) * maxStored :=
    Nat.lt_mul_of_div_lt (Nat.lt_succ_self _) hm
  have hge := length_storedBlocks_ge (bs.length / maxStored) bs (Nat.div_mul_le_self ..)
  generalize hblocks : storedBlocks (bs.length / maxStored) bs = blocks at hge ⊢
  have hf : bs.length / maxStored < (bitsOf (blocks ++ rest)).length + 1 := by
    rw [length_bitsOf, List.length_append]
    omega
  have hr := readBlocks_storedBlocks _ _ bs rest #[] (Nat.le_of_lt hlt) hf
  have hdrop : (blocks ++ rest).length - (bitsOf rest).length / 8 = blocks.length := by
    rw [List.length_append, length_bitsOf]
    omega
  rw [hblocks] at hr
  simp only [inflate, hr, Option.bind_eq_bind, Option.bind_some, hdrop, List.drop_left]
  simp

/-! ## 3. Members -/

theorem isGzip_compress (bs : List UInt8) : isGzip (compress bs) = true := rfl

theorem skipHeader_header (rest : List UInt8) : skipHeader (header ++ rest) = some rest := by
  have h : readBytes 10 (header ++ rest) = some (header, rest) := readBytes_append header rest
  rw [skipHeader, h]
  rfl

theorem decompress_compress (bs : List UInt8) : decompress (compress bs) = some bs := by
  have hs := readBytes_append (fixed 4 (crc bs).toNat) (fixed 4 (bs.length % UInt32.size))
  have hl := readBytes_append (fixed 4 (bs.length % UInt32.size)) []
  rw [length_fixed] at hs hl
  rw [List.append_nil] at hl
  have hc : ofFixed (fixed 4 (crc bs).toNat) = (crc bs).toNat :=
    ofFixed_fixed _ _ (crc bs).toNat_lt
  have hn : ofFixed (fixed 4 (bs.length % UInt32.size)) = bs.length % UInt32.size :=
    ofFixed_fixed _ _ (Nat.mod_lt _ (by decide))
  rw [decompress, compress, List.append_assoc, List.append_assoc, skipHeader_header]
  simp only [Option.bind_eq_bind, Option.bind_some, inflate_storedBlocks, hs, hl, hc, hn, and_self,
    if_true]

/-- Data of any length survives being stored. -/
theorem storing_lossless : Packer.storing.Lossless :=
  ⟨isGzip_compress, decompress_compress⟩

theorem le_length_storedBlocks (blocks : Nat) (bs : List UInt8) :
    bs.length ≤ (storedBlocks blocks bs).length := by
  induction blocks generalizing bs with
  | zero =>
    simp only [storedBlocks, storedBlock, List.length_append, List.length_cons]
    omega
  | succ blocks ih =>
    have hrest := ih (bs.drop maxStored)
    rw [List.length_drop] at hrest
    rw [storedBlocks]
    split <;> simp only [storedBlock, List.length_append, List.length_cons, List.length_take] <;>
      omega

theorem length_storedBlocks_le (blocks : Nat) (bs : List UInt8) :
    (storedBlocks blocks bs).length ≤ bs.length + 5 * (blocks + 1) := by
  induction blocks generalizing bs with
  | zero =>
    simp only [storedBlocks, storedBlock, List.length_append, List.length_cons, length_fixed]
    omega
  | succ blocks ih =>
    have hrest := ih (bs.drop maxStored)
    rw [List.length_drop] at hrest
    rw [storedBlocks]
    split <;> simp only [storedBlock, List.length_append, List.length_cons, List.length_take,
      length_fixed] <;> omega

/-- A member is at most little more than twice as long as what is stored in it. -/
theorem length_compress_le (bs : List UInt8) : (compress bs).length ≤ 2 * bs.length + 23 := by
  have hblocks := length_storedBlocks_le (bs.length / maxStored) bs
  have hfull : bs.length / maxStored ≤ bs.length / 5 :=
    Nat.div_le_div_left (by decide) (by decide)
  have hheader : header.length = 10 := rfl
  simp only [compress, List.length_append, length_fixed, hheader]
  omega

/-- What is stored in a member takes its place there. -/
theorem le_length_compress (bs : List UInt8) : bs.length ≤ (compress bs).length := by
  have hblocks := le_length_storedBlocks (bs.length / maxStored) bs
  simp only [compress, List.length_append]
  omega

end Uplink.Gzip
