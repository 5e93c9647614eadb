import Uplink.Text.Base64
import Uplink.Text.Utf8

/-!
# Base64, there and back

Bytes that were written are read again. Three bytes go into four symbols and come out of them; only
the last group, which may be filled up, is read in a way of its own.
-/

namespace Uplink

theorem Utf8.bytes_ofList_of_lt {cs : List Char} (h : ∀ c ∈ cs, c.toNat < 128) :
    Utf8.bytes (String.ofList cs) = cs.map fun c => UInt8.ofNat c.toNat := by
  rw [Utf8.bytes_ofList]
  induction cs with
  | nil => rfl
  | cons c cs ih =>
    obtain ⟨hc, hcs⟩ := List.forall_mem_cons.1 h
    have hone : String.utf8EncodeChar c = [UInt8.ofNat c.toNat] :=
      if_pos (Nat.le_of_lt_succ hc)
    rw [List.flatMap_cons, hone, ih hcs, List.map_cons, List.singleton_append]

namespace Base64

/-! ## 1. Symbols -/

def symbolByte (n : Nat) : UInt8 := UInt8.ofNat (symbol n).toNat

theorem value?_symbolByte : ∀ n < 64, value? (symbolByte n) = some n := by decide

theorem symbolByte_ne_pad : ∀ n < 64, symbolByte n ≠ pad := by decide

theorem symbol_lt : ∀ n < 64, (symbol n).toNat < 128 := by decide

theorem valueAt_symbolByte (offset : Nat) {n : Nat} (h : n < 64) :
    valueAt offset (symbolByte n) = .ok n := by
  rw [valueAt, value?_symbolByte n h]

def encodeBytes (bs : List UInt8) : List UInt8 := (encodeChars bs).map fun c => UInt8.ofNat c.toNat

theorem lt_of_mem_encodeChars (bs : List UInt8) : ∀ c ∈ encodeChars bs, c.toNat < 128 := by
  have hpad : '='.toNat < 128 := by decide
  fun_induction encodeChars bs with
  | case1 => simp
  | case2 a n =>
    have ha := a.toNat_lt
    simp only [List.forall_mem_cons]
    exact ⟨symbol_lt _ (by omega), symbol_lt _ (by omega), hpad, hpad, by simp⟩
  | case3 a b n =>
    have ha := a.toNat_lt
    have hb := b.toNat_lt
    simp only [List.forall_mem_cons]
    exact ⟨symbol_lt _ (by omega), symbol_lt _ (by omega), symbol_lt _ (by omega), hpad, by simp⟩
  | case4 a b c rest n ih =>
    have ha := a.toNat_lt
    have hb := b.toNat_lt
    have hc := c.toNat_lt
    simp only [List.forall_mem_cons]
    exact ⟨symbol_lt _ (by omega), symbol_lt _ (by omega), symbol_lt _ (by omega),
      symbol_lt _ (by omega), ih⟩

theorem bytes_encode (bs : List UInt8) : Utf8.bytes (encode bs) = encodeBytes bs :=
  Utf8.bytes_ofList_of_lt (lt_of_mem_encodeChars bs)

theorem encodeBytes_cons (a b c : UInt8) (rest : List UInt8) :
    encodeBytes (a :: b :: c :: rest) = encodeBytes [a, b, c] ++ encodeBytes rest := by
  cases rest <;> rfl

/-! ## 2. Groups -/

/-- Three bytes come out of their four symbols. -/
theorem decodeGroups_append (offset : Nat) (a b c : UInt8) (symbols : List UInt8) :
    decodeGroups offset (encodeBytes [a, b, c] ++ symbols) =
      (decodeGroups (offset + 4) symbols).map ([a, b, c] ++ ·) := by
  have ha := a.toNat_lt
  have hb := b.toNat_lt
  have hc := c.toNat_lt
  obtain ⟨n, hn⟩ : ∃ n, n = a.toNat * 65536 + b.toNat * 256 + c.toNat := ⟨_, rfl⟩
  have hbytes : encodeBytes [a, b, c] ++ symbols = symbolByte (n / 262144) ::
      symbolByte (n / 4096 % 64) :: symbolByte (n / 64 % 64) :: symbolByte (n % 64) :: symbols :=
    hn ▸ rfl
  have hsum : n / 262144 * 262144 + n / 4096 % 64 * 4096 + n / 64 % 64 * 64 + n % 64 = n := by omega
  have hfirst : n / 65536 = a.toNat := by omega
  have hsecond : n / 256 % 256 = b.toNat := by omega
  have hthird : n % 256 = c.toNat := by omega
  rw [hbytes, decodeGroups, valueAt_symbolByte _ (by omega), valueAt_symbolByte _ (by omega),
    valueAt_symbolByte _ (by omega), valueAt_symbolByte _ (by omega)]
  simp only [bind, Except.bind, hsum, hfirst, hsecond, hthird, UInt8.ofNat_toNat, pure, Except.pure]
  cases decodeGroups (offset + 4) symbols <;> rfl

theorem lastGroup_symbolByte (offset index : Nat) {n : Nat} (h : n < 64) (bs : List UInt8) :
    lastGroup offset index (symbolByte n :: bs) =
      (lastGroup offset (index + 1) bs).map fun (ns, pads) => (n :: ns, pads) := by
  rw [lastGroup, if_neg (symbolByte_ne_pad n h), valueAt_symbolByte _ h]
  cases lastGroup offset (index + 1) bs <;> rfl

/-! The last group gives the one, two or three bytes that it was made of. -/

theorem decodeLast_one (offset : Nat) (a : UInt8) :
    decodeLast offset (encodeBytes [a]) = .ok [a] := by
  have ha := a.toNat_lt
  have hbytes : encodeBytes [a] =
      [symbolByte (a.toNat * 16 / 64), symbolByte (a.toNat * 16 % 64), pad, pad] := rfl
  have hgroup : lastGroup offset 0 (encodeBytes [a]) =
      .ok ([a.toNat * 16 / 64, a.toNat * 16 % 64], 2) := by
    rw [hbytes, lastGroup_symbolByte _ _ (by omega), lastGroup_symbolByte _ _ (by omega)]
    rfl
  have hsum : a.toNat * 16 / 64 * 64 + a.toNat * 16 % 64 = a.toNat * 16 := by omega
  have hdiv : a.toNat * 16 / 16 = a.toNat := by omega
  simp [decodeLast, hgroup, bind, Except.bind, pure, Except.pure, hsum, hdiv]

theorem decodeLast_two (offset : Nat) (a b : UInt8) :
    decodeLast offset (encodeBytes [a, b]) = .ok [a, b] := by
  have ha := a.toNat_lt
  have hb := b.toNat_lt
  obtain ⟨n, hn⟩ : ∃ n, n = (a.toNat * 256 + b.toNat) * 4 := ⟨_, rfl⟩
  have hbytes : encodeBytes [a, b] =
      [symbolByte (n / 4096), symbolByte (n / 64 % 64), symbolByte (n % 64), pad] := hn ▸ rfl
  have hgroup : lastGroup offset 0 (encodeBytes [a, b]) =
      .ok ([n / 4096, n / 64 % 64, n % 64], 1) := by
    rw [hbytes, lastGroup_symbolByte _ _ (by omega), lastGroup_symbolByte _ _ (by omega),
      lastGroup_symbolByte _ _ (by omega)]
    rfl
  have hsum : n / 4096 * 4096 + n / 64 % 64 * 64 + n % 64 = n := by omega
  have hmod : n % 4 = 0 := by omega
  have hfirst : n / 1024 = a.toNat := by omega
  have hsecond : n / 4 % 256 = b.toNat := by omega
  simp [decodeLast, hgroup, bind, Except.bind, pure, Except.pure, hsum, hmod, hfirst, hsecond]

/-- A last group that is full is read like any other. -/
theorem decodeLast_three (offset : Nat) (a b c : UInt8) :
    decodeLast offset (encodeBytes [a, b, c]) = .ok [a, b, c] := by
  have ha := a.toNat_lt
  have hb := b.toNat_lt
  have hc := c.toNat_lt
  have hgroups : decodeGroups offset (encodeBytes [a, b, c]) = .ok [a, b, c] :=
    decodeGroups_append offset a b c []
  obtain ⟨n, hn⟩ : ∃ n, n = a.toNat * 65536 + b.toNat * 256 + c.toNat := ⟨_, rfl⟩
  have hbytes : encodeBytes [a, b, c] = [symbolByte (n / 262144), symbolByte (n / 4096 % 64),
      symbolByte (n / 64 % 64), symbolByte (n % 64)] := hn ▸ rfl
  have hgroup : lastGroup offset 0 (encodeBytes [a, b, c]) =
      .ok ([n / 262144, n / 4096 % 64, n / 64 % 64, n % 64], 0) := by
    rw [hbytes, lastGroup_symbolByte _ _ (by omega), lastGroup_symbolByte _ _ (by omega),
      lastGroup_symbolByte _ _ (by omega), lastGroup_symbolByte _ _ (by omega)]
    rfl
  simp [decodeLast, hgroup, bind, Except.bind, hgroups]

/-! ## 3. Whole texts -/

theorem length_encodeBytes (bs : List UInt8) : (encodeBytes bs).length % 4 = 0 := by
  rw [encodeBytes, List.length_map]
  fun_induction encodeChars bs with
  | case1 => rfl
  | case2 => simp
  | case3 => simp
  | case4 a b c rest n ih =>
    simp only [List.length_cons]
    omega

theorem encodeBytes_eq_nil_iff {bs : List UInt8} : encodeBytes bs = [] ↔ bs = [] := by
  rcases bs with _ | ⟨a, _ | ⟨b, _ | ⟨c, bs⟩⟩⟩ <;> simp [encodeBytes, encodeChars]

/-- The groups of a text from an offset on, the last of them read in its own way. -/
def decodeFrom (offset : Nat) (bs : List UInt8) : Except Error (List UInt8) := do
  let front ← decodeGroups offset (bs.take (lastStart bs.length))
  let back ← decodeLast (offset + lastStart bs.length) (bs.drop (lastStart bs.length))
  return front ++ back

theorem decodeFrom_of_length_eq_four (offset : Nat) {bs : List UInt8} (h : bs.length = 4) :
    decodeFrom offset bs = decodeLast offset bs := by
  rw [decodeFrom, h]
  show (decodeLast offset bs >>= fun back => .ok back) = _
  exact bind_pure _

/-- A full group is read before the others, if others follow. -/
theorem decodeFrom_encodeBytes_cons (offset : Nat) (a b c : UInt8) {rest : List UInt8}
    (hne : rest ≠ []) :
    decodeFrom offset (encodeBytes (a :: b :: c :: rest)) =
      (decodeFrom (offset + 4) (encodeBytes rest)).map ([a, b, c] ++ ·) := by
  have hmod := length_encodeBytes rest
  have hpos := List.length_pos_iff.2 (mt encodeBytes_eq_nil_iff.1 hne)
  have hgroup : (encodeBytes [a, b, c]).length = 4 := rfl
  have hgroups := decodeGroups_append offset a b c
  -- The last group begins four bytes further on than in the text without the first group.
  rw [encodeBytes_cons, decodeFrom, decodeFrom]
  generalize encodeBytes [a, b, c] = group at hgroup hgroups ⊢
  generalize encodeBytes rest = more at hmod hpos ⊢
  have hstart : lastStart (group ++ more).length = group.length + lastStart more.length := by
    rw [List.length_append, hgroup, lastStart, lastStart, if_pos hmod, if_pos (by omega)]
    omega
  rw [hstart, List.take_length_add_append, List.drop_length_add_append, hgroups, hgroup,
    Nat.add_assoc]
  cases decodeGroups (offset + 4) (more.take (lastStart more.length)) with
  | error e => rfl
  | ok front =>
    simp only [Except.map, bind, Except.bind]
    cases decodeLast (offset + (4 + lastStart more.length)) (more.drop (lastStart more.length)) <;>
      rfl

theorem decodeFrom_encodeBytes (offset : Nat) {bs : List UInt8} (hne : bs ≠ []) :
    decodeFrom offset (encodeBytes bs) = .ok bs := by
  -- By the groups that are written: one that is not full, or full with nothing behind it, is last.
  fun_induction encodeChars bs generalizing offset with
  | case1 => exact absurd rfl hne
  | case2 a => exact (decodeFrom_of_length_eq_four offset rfl).trans (decodeLast_one offset a)
  | case3 a b => exact (decodeFrom_of_length_eq_four offset rfl).trans (decodeLast_two offset a b)
  | case4 a b c rest n ih =>
    by_cases hrest : rest = []
    · subst hrest
      exact (decodeFrom_of_length_eq_four offset rfl).trans (decodeLast_three offset a b c)
    · rw [decodeFrom_encodeBytes_cons offset a b c hrest, ih (offset + 4) hrest]
      rfl

/-- **What was written in base64 is read again.** -/
theorem decode_encode (bs : List UInt8) : decode (Utf8.bytes (encode bs)) = .ok bs := by
  rw [bytes_encode, decode]
  split
  · next hlast =>
    rw [List.getLast?_eq_none_iff, encodeBytes_eq_nil_iff] at hlast
    rw [hlast]
  · next last hlast =>
    have hne : bs ≠ [] := fun h => by
      rw [h] at hlast
      cases hlast
    have hfrom := decodeFrom_encodeBytes 0 hne
    rw [decodeFrom, Nat.zero_add] at hfrom
    rw [if_neg (by rw [length_encodeBytes]; omega)]
    exact hfrom

end Base64

end Uplink
