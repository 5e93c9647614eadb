import Mathlib.Data.List.TakeWhile
import Uplink.Proofs.Json.Numbers
import Uplink.Proofs.Number.Shortest

/-!
# Doubles in JSON

The text of a double is read as a double, though it may be another one: the significand is rounded,
and so is the power of ten, and so is their product. None of this makes a number infinite that was
not, which is seen from the error of rounding, except for the two largest doubles, whose texts are
read one by one.
-/

namespace Uplink.Json

open Number

/-! ## 1. Significands and powers of ten -/

/-- Up to here a significand times a power of ten is far enough from infinity. -/
def readableBound : ℚ := (2 ^ 55 - 10) * 2 ^ 969

/-- A power of ten does not make a significand infinite. -/
def IsReadable (significand : Nat) (exponent : Int) : Prop :=
  exponent ≤ 0 ∨ (significand : ℚ) * 10 ^ exponent ≤ readableBound

theorem readableBound_lt : readableBound * (1 + 1 / 2 ^ 53) ^ 2 < Format.beyondDouble := by
  rw [readableBound, Format.beyondDouble, pow_succ (2 : ℚ) 969]
  have hpos : (0 : ℚ) < 2 ^ 969 := by positivity
  generalize (2 : ℚ) ^ 969 = power at hpos ⊢
  norm_num
  linarith

theorem readableBound_lt_pow : readableBound < 10 ^ 309 := by
  have hcast : readableBound = (36028797018963958 * 2 ^ 969 : Nat) := by
    rw [readableBound, Nat.cast_mul, Nat.cast_pow, Nat.cast_ofNat, Nat.cast_ofNat]
    congr 1
    norm_num
  have hlt : 36028797018963958 * 2 ^ 969 < 10 ^ 309 := by decide +kernel
  rw [hcast]
  exact_mod_cast hlt

theorem exists_scale_of_neg (steps : Nat) (x : Double) {exponent : Int} (h : exponent < 0) :
    ∃ y, scale steps x exponent = some y := by
  induction steps generalizing x exponent with
  | zero => exact ⟨x, rfl⟩
  | succ steps ih =>
    rw [scale]
    split
    · rw [if_neg (by omega)]
      exact ⟨_, rfl⟩
    split
    · exact ⟨x, rfl⟩
    · next hlarge _ =>
      rw [if_neg (by omega)]
      have hmax : maxPower = 308 := rfl
      exact ih _ (by omega)

theorem exists_scale_of_nonneg (steps : Nat) {significand : Nat} {exponent : Int}
    (hfits : significand ≤ maxSignificand) (hexponent : 0 ≤ exponent)
    (h : (significand : ℚ) * 10 ^ exponent ≤ readableBound) :
    ∃ y, scale (steps + 1) (.ofInt significand) exponent = some y := by
  have hbound : maxSignificand = 18446744073709551615 := by decide
  have hmax : maxPower = 308 := rfl
  obtain ⟨n, rfl⟩ := Int.eq_ofNat_of_zero_le hexponent
  rw [zpow_natCast] at h
  rw [scale, Int.natAbs_natCast]
  -- One multiplication is enough, unless the power is too large. Then only zero is small enough.
  by_cases hsmall : n ≤ maxPower
  · have hpower : Nat.pow 10 n < 18014398509481983 * 2 ^ 970 := by
      calc 10 ^ n ≤ 10 ^ 308 := Nat.pow_le_pow_right (by decide) (hmax ▸ hsmall)
        _ < 18014398509481983 * 2 ^ 970 := by decide +kernel
    have hsignificand : significand < 18014398509481983 * 2 ^ 970 :=
      lt_of_le_of_lt (hbound ▸ hfits) (by decide +kernel)
    have hproduct : (significand : ℚ) * (Nat.pow 10 n : Nat) * (1 + 1 / 2 ^ 53) ^ 2 <
        Format.beyondDouble := by
      refine lt_of_le_of_lt ?_ readableBound_lt
      rw [Nat.pow_eq, Nat.cast_pow, Nat.cast_ofNat]
      gcongr
    have hfinite := Double.isInfinite_mul_ofInt (Format.cast_lt_beyondDouble hsignificand)
      (Format.cast_lt_beyondDouble hpower) hproduct
    rw [if_pos hsmall, if_pos hexponent]
    dsimp only
    rw [hfinite]
    exact ⟨_, rfl⟩
  · have hzero : significand = 0 := by
      by_contra hne
      have hone : (1 : ℚ) ≤ significand := by exact_mod_cast Nat.one_le_iff_ne_zero.2 hne
      have hpower : (10 : ℚ) ^ 309 ≤ 10 ^ n := pow_le_pow_right₀ (by norm_num) (by omega)
      have hle : (10 : ℚ) ^ n ≤ significand * 10 ^ n := le_mul_of_one_le_left (by positivity) hone
      exact absurd (hpower.trans (hle.trans h)) (not_le.2 readableBound_lt_pow)
    subst hzero
    have hisZero : (Double.ofInt (0 : Nat)).isZero = true := by decide
    rw [if_neg hsmall, hisZero]
    exact ⟨_, rfl⟩

theorem exists_ofParts (negative : Bool) {significand : Nat} {exponent : Int}
    (hfits : significand ≤ maxSignificand) (h : IsReadable significand exponent) :
    ∃ y, ofParts negative significand exponent = some y := by
  have hscale : ∃ y, scale 5 (.ofInt significand) exponent = some y := by
    rcases lt_or_ge exponent 0 with hneg | hnonneg
    · exact exists_scale_of_neg 5 _ hneg
    · refine exists_scale_of_nonneg 4 hfits hnonneg (h.elim (fun hle => ?_) id)
      obtain rfl : exponent = 0 := le_antisymm hle hnonneg
      have hlt : (maxSignificand : ℚ) ≤ readableBound := by
        have hbound : maxSignificand ≤ 2 ^ 64 := by decide
        have hbound' : (maxSignificand : ℚ) ≤ 2 ^ 64 := by exact_mod_cast hbound
        have hpower : (2 : ℚ) ^ 64 ≤ 2 ^ 969 := pow_le_pow_right₀ one_le_two (by norm_num)
        have hpos : (0 : ℚ) < 2 ^ 969 := by positivity
        rw [readableBound]
        generalize (2 : ℚ) ^ 969 = power at hpower hpos ⊢
        linarith
      have hfits' : (significand : ℚ) ≤ maxSignificand := by exact_mod_cast hfits
      rw [zpow_zero, mul_one]
      exact hfits'.trans hlt
  obtain ⟨y, hy⟩ := hscale
  rw [ofParts, hy]
  exact ⟨_, rfl⟩

/-! ## 2. Digits -/

/-- Of digits that do not all fit, the first ones are taken. -/
theorem exists_takeDigits {bound n : Nat} (hn : n ≤ bound) (count : Nat) {ds : List Char}
    (hdigits : ∀ c ∈ ds, c.isDigit = true) :
    ∃ taken left, ds = taken ++ left ∧
      takeDigits bound n count ds =
        (Nat.ofDigitChars 10 taken n, count + taken.length, left) ∧
      Nat.ofDigitChars 10 taken n ≤ bound := by
  induction ds generalizing n count with
  | nil => exact ⟨[], [], rfl, rfl, hn⟩
  | cons c ds ih =>
    obtain ⟨hc, hds⟩ := List.forall_mem_cons.1 hdigits
    rw [takeDigits, hc, Bool.true_and]
    by_cases hle : n * 10 + digitOf c ≤ bound
    · obtain ⟨taken, left, rfl, htake, hbound⟩ := ih hle (count + 1) hds
      have hvalue : Nat.ofDigitChars 10 (c :: taken) n =
          Nat.ofDigitChars 10 taken (n * 10 + digitOf c) := by
        rw [Nat.ofDigitChars_cons, Nat.mul_comm, digitOf]
      refine ⟨c :: taken, left, rfl, ?_, hvalue ▸ hbound⟩
      rw [if_pos (by simpa using hle), htake, hvalue, List.length_cons]
      simp only [Nat.add_assoc, Nat.add_comm 1]
    · refine ⟨[], c :: ds, rfl, ?_, hn⟩
      rw [if_neg (by simpa using hle)]
      rfl

theorem ofDigitChars_lt (ds : List Char) (hdigits : ∀ c ∈ ds, c.isDigit = true) :
    Nat.ofDigitChars 10 ds 0 < 10 ^ ds.length := by
  induction ds with
  | nil => exact Nat.one_pos
  | cons c ds ih =>
    obtain ⟨hc, hds⟩ := List.forall_mem_cons.1 hdigits
    have hdigit : c.toNat - '0'.toNat < 10 := by
      have hbounds := Char.isDigit_iff_toNat.1 hc
      have hzero : '0'.toNat = 48 := rfl
      have hnine : '9'.toNat = 57 := rfl
      omega
    rw [Nat.ofDigitChars_cons, Nat.ofDigitChars_eq_ofDigitChars_zero, Nat.mul_zero, Nat.zero_add,
      List.length_cons, pow_succ]
    have hmul := Nat.mul_le_mul_left (10 ^ ds.length) (Nat.le_of_lt_succ hdigit)
    have := ih hds
    omega

/-- Digits that come first count for as many places as there are behind them. -/
theorem mul_pow_le_ofDigitChars (front back : List Char) :
    Nat.ofDigitChars 10 front 0 * 10 ^ back.length ≤ Nat.ofDigitChars 10 (front ++ back) 0 := by
  rw [Nat.ofDigitChars_append, Nat.ofDigitChars_eq_ofDigitChars_zero (l := back), Nat.mul_comm]
  exact Nat.le_add_right _ _

theorem isDigit_of_mem_digitChars {n : Nat} : ∀ c ∈ digitChars n, c.isDigit = true :=
  fun _ hc => Nat.isDigit_of_mem_toDigits (by decide) (by decide) hc

theorem ofDigitChars_digitChars (n : Nat) : Nat.ofDigitChars 10 (digitChars n) 0 = n :=
  Nat.ofDigitChars_ten_toDigits

theorem digitChars_ne_nil (n : Nat) : digitChars n ≠ [] := Nat.toDigits_ne_nil

theorem head_digitChars {n : Nat} (h : 0 < n) : (digitChars n).head? ≠ some '0' := by
  rcases Nat.lt_or_ge n 10 with hsmall | hlarge
  · have hlead : ∀ d < 10, 0 < d → (Nat.toDigits 10 d).head? ≠ some '0' := by decide
    exact hlead n hsmall h
  · exact head_toDigits hlarge

theorem hasLeadingZero_of_head {cs : List Char} (h : cs.head? ≠ some '0') :
    hasLeadingZero cs = false := by
  simp [hasLeadingZero, h]

theorem isDigit_of_mem_zeros {n : Nat} : ∀ c ∈ zeros n, c.isDigit = true := fun c hc => by
  rw [List.eq_of_mem_replicate hc]
  rfl

theorem isDigit_of_mem_zero : ∀ c ∈ ['0'], c.isDigit = true := isDigit_of_mem_zeros (n := 1)

/-! ## 3. Parts of a number -/

theorem endsDigits_nil : EndsDigits [] := by
  rintro c ⟨⟩

theorem endsDigits_cons {c : Char} (h : c.isDigit = false) (rest : List Char) :
    EndsDigits (c :: rest) :=
  fun _ hd => Option.mem_some.1 hd ▸ h

theorem readUnsigned_digits (negative : Bool) {ds rest : List Char} (hne : ds ≠ [])
    (hdigits : ∀ c ∈ ds, c.isDigit = true) (hlead : hasLeadingZero ds = false)
    (hfits : Nat.ofDigitChars 10 ds 0 ≤ maxSignificand) (hrest : EndsDigits rest) :
    readUnsigned negative (ds ++ rest) =
      afterDigits negative (Nat.ofDigitChars 10 ds 0) [] rest := by
  have htake := takeDigits_append maxSignificand 0 0 ds hrest
  rw [takeDigits_of_isDigit hdigits hfits] at htake
  have hlength : 0 < ds.length := List.length_pos_iff.2 hne
  have hnone : rest.takeWhile Char.isDigit = [] := by
    cases rest with
    | nil => rfl
    | cons c rest => rw [List.takeWhile_cons, hrest c rfl, if_neg Bool.false_ne_true]
  rw [readUnsigned_eq, htake, hasLeadingZero_append hne hrest, hlead, if_neg (by simp; omega)]
  dsimp only [List.nil_append]
  rw [hnone]
  rfl

theorem readPlaces_digits (negative : Bool) {n : Nat} (hn : n ≤ maxSignificand) (exponent : Int)
    {ds rest : List Char} (hne : ds ≠ []) (hdigits : ∀ c ∈ ds, c.isDigit = true)
    (hrest : EndsDigits rest) :
    ∃ taken left, ds = taken ++ left ∧ Nat.ofDigitChars 10 taken n ≤ maxSignificand ∧
      readPlaces negative n exponent (ds ++ rest) =
        readScale negative (Nat.ofDigitChars 10 taken n) (exponent - taken.length) rest := by
  obtain ⟨taken, left, rfl, htake, hfits⟩ := exists_takeDigits hn 0 hdigits
  refine ⟨taken, left, rfl, hfits, ?_⟩
  have happend := takeDigits_append maxSignificand n 0 (taken ++ left) hrest
  rw [htake] at happend
  have hhead : (((taken ++ left) ++ rest).head?.map Char.isDigit).getD false = true := by
    obtain ⟨c, cs, hcs⟩ := List.exists_cons_of_ne_nil hne
    rw [hcs] at hdigits ⊢
    exact hdigits c List.mem_cons_self
  have hleft : left.dropWhile Char.isDigit = [] :=
    List.dropWhile_eq_nil_iff.2 fun c hc => hdigits c (List.mem_append_right _ hc)
  rw [readPlaces, if_pos hhead, happend]
  dsimp only
  rw [dropWhile_isDigit_append _ hrest, hleft, List.nil_append, Nat.zero_add]

/-- A double is read up to the end. -/
def ReadsDouble (r : Option (Measured × List Char)) : Prop :=
  ∃ y, r = some (some (.double y), [])

theorem readsDouble_map {x : Option Double} (h : ∃ y, x = some y) :
    ReadsDouble (some (x.map double, [])) := by
  obtain ⟨y, rfl⟩ := h
  exact ⟨y, rfl⟩

theorem readsDouble_readPlaces (negative : Bool) {n : Nat} (hn : n ≤ maxSignificand)
    {ds : List Char} (hne : ds ≠ []) (hdigits : ∀ c ∈ ds, c.isDigit = true) :
    ReadsDouble (readPlaces negative n 0 ds) := by
  obtain ⟨taken, left, -, hfits, hread⟩ :=
    readPlaces_digits negative hn 0 hne hdigits endsDigits_nil
  rw [List.append_nil] at hread
  rw [hread, readScale_of_ne _ _ _ (by simp)]
  exact readsDouble_map (exists_ofParts negative hfits (.inl (by omega)))

/-- An exponent that is negative makes no number too large, however many digits it has. -/
theorem readsDouble_down (negative : Bool) {significand : Nat} {exponent : Int}
    (hfits : significand ≤ maxSignificand) (hexponent : exponent ≤ 0) (n : Nat) :
    ReadsDouble (readExponent negative significand exponent ('-' :: digitChars n)) := by
  rw [readExponent_eq]
  show ReadsDouble (exponentDigits negative significand exponent true (digitChars n))
  obtain ⟨c, ds, hds⟩ := List.exists_cons_of_ne_nil (digitChars_ne_nil n)
  have hdigits := isDigit_of_mem_digitChars (n := n)
  rw [hds] at hdigits ⊢
  obtain ⟨hc, hmore⟩ := List.forall_mem_cons.1 hdigits
  have hfirst : 0 * 10 + digitOf c ≤ maxExponent := by
    have hlt := ofDigitChars_lt [c] (by simpa using hc)
    have hvalue : Nat.ofDigitChars 10 [c] 0 = digitOf c := by
      rw [Nat.ofDigitChars_cons, Nat.mul_zero, Nat.zero_add]
      rfl
    have hmax : maxExponent = 2147483647 := by decide
    rw [hvalue, List.length_singleton] at hlt
    omega
  obtain ⟨taken, left, rfl, htake, -⟩ := exists_takeDigits hfirst 1 hmore
  rw [exponentDigits, takeDigits, hc, Bool.true_and, if_pos (by simpa using hfirst),
    show 0 + 1 = 1 from rfl, htake, Nat.add_comm 1]
  dsimp only
  cases left with
  | nil =>
    exact readsDouble_map (exists_ofParts negative hfits (.inl (by simp; omega)))
  | cons d left =>
    -- The exponent is too large to be counted, and its sign makes the number zero.
    have hd : d.isDigit = true := hmore d (by simp)
    have hleft : (d :: left).dropWhile Char.isDigit = [] :=
      List.dropWhile_eq_nil_iff.2 fun e he => hmore e (List.mem_append_right _ he)
    simp only [hd, hleft, if_true, Bool.not_true, Bool.false_eq_true, and_false, if_false]
    exact ⟨_, rfl⟩

theorem readsDouble_up (negative : Bool) {significand : Nat} {exponent : Int} {n : Nat}
    (hfits : significand ≤ maxSignificand) (hn : n ≤ maxExponent)
    (h : IsReadable significand (exponent + n)) :
    ReadsDouble (readExponent negative significand exponent ('+' :: digitChars n)) := by
  have htake : takeDigits maxExponent 0 0 (digitChars n) = _ :=
    takeDigits_of_isDigit isDigit_of_mem_digitChars ((ofDigitChars_digitChars n).symm ▸ hn)
  obtain ⟨count, hcount⟩ := Nat.exists_eq_succ_of_ne_zero
    (Nat.ne_of_gt (List.length_pos_iff.2 (digitChars_ne_nil n)))
  rw [ofDigitChars_digitChars, hcount, Nat.zero_add] at htake
  rw [readExponent_eq]
  show ReadsDouble (exponentDigits negative significand exponent false (digitChars n))
  rw [exponentDigits, htake]
  exact readsDouble_map (exists_ofParts negative hfits h)

/-! ## 4. Decimal numbers -/

/-- A number with an exponent, after its digits. Its places are digits of the number as well. -/
theorem readsDouble_exponentChars (negative : Bool) {d : Decimal} (hd : 0 < d.digits)
    (hbound : d.magnitude ≤ readableBound) (front back : List Char)
    (hdigits : digitChars d.digits = front ++ back) (hfront : front ≠ [])
    (hfits : Nat.ofDigitChars 10 front 0 ≤ maxSignificand) {rest : List Char}
    (hrest : exponentChars (d.exponent + (digitChars d.digits).length - 1) = 'e' :: rest) :
    ReadsDouble (readExponent negative (Nat.ofDigitChars 10 front 0) (1 - front.length) rest) := by
  generalize hfirst : d.exponent + ((digitChars d.digits).length : ℤ) - 1 = first at hrest
  have hlength : 1 ≤ front.length := List.length_pos_iff.2 hfront
  rw [exponentChars] at hrest
  split at hrest
  · cases hrest
    exact readsDouble_down negative hfits (by omega) _
  · next hup =>
    cases hrest
    obtain ⟨n, rfl⟩ := Int.eq_ofNat_of_zero_le (not_lt.1 hup)
    rw [Decimal.magnitude] at hbound
    have hten : (10 : ℚ) ≠ 0 := by norm_num
    have hle (k : Nat) (e : ℤ) (hk : (k : ℚ) ≤ d.digits) (he : e = d.exponent) :
        (k : ℚ) * 10 ^ e ≤ readableBound := by
      rw [he]
      exact le_trans (by gcongr) hbound
    -- The first digit alone says how large the number is.
    have hn : n ≤ 308 := by
      have hcount : 10 ^ ((digitChars d.digits).length - 1) ≤ d.digits := pow_digitCount_le hd
      have hpos : 0 < (digitChars d.digits).length := Nat.length_toDigits_pos
      have hpower : (10 : ℚ) ^ n ≤ readableBound := by
        refine le_trans (le_of_eq ?_) (hle _ _ (by exact_mod_cast hcount) rfl)
        rw [Nat.cast_pow, Nat.cast_ofNat, ← zpow_natCast, ← zpow_natCast, ← zpow_add₀ hten]
        congr 1
        omega
      by_contra hlarge
      have : (10 : ℚ) ^ 309 ≤ 10 ^ n := pow_le_pow_right₀ (by norm_num) (by omega)
      exact absurd (this.trans hpower) (not_le.2 readableBound_lt_pow)
    have hmax : 308 ≤ maxExponent := by decide
    refine readsDouble_up negative hfits (hn.trans hmax) (.inr ?_)
    have hplaces := mul_pow_le_ofDigitChars front back
    rw [← hdigits, ofDigitChars_digitChars] at hplaces
    refine le_trans (le_of_eq ?_) (hle _ _ (by exact_mod_cast hplaces) rfl)
    rw [Nat.cast_mul, Nat.cast_pow, Nat.cast_ofNat, mul_assoc, ← zpow_natCast, ← zpow_add₀ hten]
    congr 2
    rw [hdigits, List.length_append] at hfirst
    push_cast at hfirst
    rw [Int.natAbs_natCast]
    omega

theorem readsDouble_point (negative : Bool) (front back : List Char) (hfront : front ≠ [])
    (hdigits : ∀ c ∈ front, c.isDigit = true) (hlead : hasLeadingZero front = false)
    (hlength : front.length ≤ 16) (hback : back ≠ []) (hplaces : ∀ c ∈ back, c.isDigit = true) :
    ReadsDouble (readUnsigned negative (front ++ '.' :: back)) := by
  have hfits : Nat.ofDigitChars 10 front 0 ≤ maxSignificand := by
    have hlt := ofDigitChars_lt front hdigits
    have hpower : 10 ^ front.length ≤ 10 ^ 16 := Nat.pow_le_pow_right (by decide) hlength
    have hmax : 10 ^ 16 ≤ maxSignificand := by decide
    omega
  rw [readUnsigned_digits negative hfront hdigits hlead hfits (endsDigits_cons (by decide) back)]
  exact readsDouble_readPlaces negative hfits hback hplaces

/-- A number below 10 ^ 16 in full. -/
theorem readsDouble_positional (negative : Bool) {d : Decimal} (hd : 0 < d.digits)
    (hfirst : d.exponent + (digitChars d.digits).length - 1 < 16) :
    ReadsDouble (readUnsigned negative
      (if 0 ≤ d.exponent then positional d ++ ['.', '0'] else positional d)) := by
  have hdigits := isDigit_of_mem_digitChars (n := d.digits)
  have hhead := head_digitChars hd
  have hne := digitChars_ne_nil d.digits
  rw [positional]
  generalize digitChars d.digits = ds at *
  split
  · next hwhole =>
    rw [if_pos (by omega), List.append_assoc, ← List.append_assoc]
    -- A whole number is written with a zero behind the point.
    refine readsDouble_point negative _ ['0'] (List.append_ne_nil_of_left_ne_nil hne _) ?_ ?_ ?_
      (List.cons_ne_nil _ _) isDigit_of_mem_zero
    · exact List.forall_mem_append.2 ⟨hdigits, isDigit_of_mem_zeros⟩
    · obtain ⟨c, cs, rfl⟩ := List.exists_cons_of_ne_nil hne
      exact hasLeadingZero_of_head hhead
    · rw [List.length_append, zeros, List.length_replicate]
      omega
  · rw [if_neg (by omega)]
    split
    · next hplaces =>
      refine readsDouble_point negative _ _ ?_ (fun c hc => hdigits c (List.mem_of_mem_take hc)) ?_
        ?_ ?_ fun c hc => hdigits c (List.mem_of_mem_drop hc)
      · rw [← List.length_pos_iff, List.length_take]
        omega
      · obtain ⟨c, cs, rfl⟩ := List.exists_cons_of_ne_nil hne
        obtain ⟨n, hn⟩ := Nat.exists_eq_succ_of_ne_zero (Nat.sub_ne_zero_of_lt hplaces)
        rw [hn]
        exact hasLeadingZero_of_head hhead
      · rw [List.length_take]
        omega
      · rw [← List.length_pos_iff, List.length_drop]
        omega
    · -- All digits stand behind the point.
      refine readsDouble_point negative ['0'] _ (List.cons_ne_nil _ _) isDigit_of_mem_zero
        (by decide) (by decide) (List.append_ne_nil_of_right_ne_nil _ hne) ?_
      exact List.forall_mem_append.2 ⟨isDigit_of_mem_zeros, hdigits⟩

theorem afterDigits_exponent (negative : Bool) (n : Nat) (rest : List Char) :
    afterDigits negative n [] ('e' :: rest) = readExponent negative n 0 rest := rfl

theorem afterDigits_point (negative : Bool) (n : Nat) (rest : List Char) :
    afterDigits negative n [] ('.' :: rest) = readPlaces negative n 0 rest := rfl

/-- One digit, a point before others, and an exponent. -/
theorem readsDouble_scientific (negative : Bool) {d : Decimal} (hd : 0 < d.digits)
    (hbound : d.magnitude ≤ readableBound) :
    ReadsDouble (readUnsigned negative
      (match digitChars d.digits with
        | [] => []
        | [c] => c :: exponentChars (d.exponent + (digitChars d.digits).length - 1)
        | c :: cs =>
          c :: '.' :: cs ++ exponentChars (d.exponent + (digitChars d.digits).length - 1))) := by
  obtain ⟨rest, hrest⟩ :
      ∃ rest, exponentChars (d.exponent + (digitChars d.digits).length - 1) = 'e' :: rest :=
    ⟨_, rfl⟩
  have hmark : EndsDigits ('e' :: rest) := endsDigits_cons (by decide) rest
  have hdigits := isDigit_of_mem_digitChars (n := d.digits)
  -- A digit before the point or the exponent fits, whatever it is.
  have hone {c : Char} (hc : c.isDigit = true) : (∀ e ∈ [c], e.isDigit = true) ∧
      hasLeadingZero [c] = false ∧ Nat.ofDigitChars 10 [c] 0 ≤ maxSignificand := by
    have hall : ∀ e ∈ [c], e.isDigit = true := by simpa using hc
    have hlt := ofDigitChars_lt [c] hall
    have hmax : 10 ^ 1 ≤ maxSignificand := by decide
    rw [List.length_singleton] at hlt
    exact ⟨hall, by simp [hasLeadingZero], by omega⟩
  have hread := readsDouble_exponentChars negative hd hbound
  rw [hrest]
  split
  · next hnil => exact absurd hnil (digitChars_ne_nil _)
  · next c hc =>
    rw [hc] at hdigits
    obtain ⟨hall, hlead, hfits⟩ := hone (hdigits c List.mem_cons_self)
    have heq := readUnsigned_digits negative (List.cons_ne_nil c []) hall hlead hfits hmark
    rw [List.singleton_append, afterDigits_exponent] at heq
    rw [heq]
    have hresult := hread [c] [] hc (List.cons_ne_nil c []) hfits hrest
    rwa [List.length_singleton, Nat.cast_one, sub_self] at hresult
  · next c cs hcs hc =>
    rw [hc] at hdigits
    obtain ⟨hfirst, hmore⟩ := List.forall_mem_cons.1 hdigits
    obtain ⟨hall, hlead, hfits⟩ := hone hfirst
    have hne : cs ≠ [] := hcs
    -- The places that fit are taken, and the others only count for the exponent.
    obtain ⟨taken, left, rfl, hfits', hplaces⟩ :=
      readPlaces_digits negative hfits 0 hne hmore hmark
    have hpoint : EndsDigits ('.' :: (taken ++ left ++ 'e' :: rest)) :=
      endsDigits_cons (by decide) _
    have heq := readUnsigned_digits negative (List.cons_ne_nil c []) hall hlead hfits hpoint
    rw [afterDigits_point, hplaces] at heq
    show ReadsDouble (readUnsigned negative ([c] ++ '.' :: (taken ++ left ++ 'e' :: rest)))
    rw [heq]
    have hresult := hread (c :: taken) left hc (List.cons_ne_nil c taken)
      hfits' hrest
    rw [List.length_cons, Nat.cast_succ, sub_add_cancel_right] at hresult
    rw [zero_sub]
    exact hresult

/-- **A positive decimal number that is not too large is read as a double, whatever its layout.** -/
theorem readsDouble_jsonChars (negative : Bool) {d : Decimal} (hd : 0 < d.digits)
    (hbound : d.magnitude ≤ readableBound) :
    ReadsDouble (readUnsigned negative (jsonChars d)) := by
  rw [jsonChars]
  split
  · next hfirst => exact readsDouble_positional negative hd hfirst.2
  · exact readsDouble_scientific negative hd hbound

/-! ## 5. Doubles -/

theorem readNumber_signed {negative : Bool} {cs : List Char} {v : Json}
    (h : readUnsigned negative cs = some (some v, [])) :
    readNumber true (signed negative cs).toList = some (v, []) := by
  rw [signed, String.toList_ofList]
  cases negative with
  | true =>
    rw [if_pos rfl, readNumber_minus, h]
    rfl
  | false =>
    obtain ⟨c, more, rfl, hc⟩ := head_of_readUnsigned h
    have hhead : ∀ d ∈ (c :: more).head?, d ≠ '-' := by
      intro d hd
      obtain rfl := Option.mem_some.1 hd
      rintro rfl
      cases hc
    rw [if_neg Bool.false_ne_true, readNumber_of_ne true hhead, h]
    rfl

/-- The significand of a finite double has 53 bits, and its unit is at most `2 ^ 971`. -/
theorem finite_bounds {x : Double} {negative : Bool} {m : Nat} {unit : Int}
    (h : x.value = .finite negative m unit) : m < 2 ^ 53 ∧ unit ≤ 971 := by
  rw [Double.value, Format.value] at h
  have hfraction := Nat.mod_lt x.bits.toNat (Nat.two_pow_pos 52)
  have hexponent := Nat.mod_lt (x.bits.toNat / 2 ^ 52) (Nat.two_pow_pos 11)
  have hminUnit : Format.double.minUnit = -1074 := by decide
  simp only [show Format.double.fraction = 52 from rfl, show Format.double.exponent = 11 from rfl,
    Nat.pow_eq, hminUnit] at h
  split at h
  · split at h <;> cases h
  split at h
  · cases h
    exact ⟨by omega, by omega⟩
  · cases h
    exact ⟨by omega, by omega⟩

/-- A number that is read from the text of a decimal number is no integer. -/
theorem readsDouble_of_asDouble? {negative : Bool} {d : Decimal}
    (h : ((readUnsigned negative (jsonChars d)).bind fun r =>
      r.1.bind fun v => v.asDouble?.map fun _ => r.2) = some []) :
    ReadsDouble (readUnsigned negative (jsonChars d)) := by
  obtain ⟨⟨measured, rest⟩, hread, hmeasured⟩ := Option.bind_eq_some_iff.1 h
  obtain ⟨v, rfl, hv⟩ := Option.bind_eq_some_iff.1 hmeasured
  obtain ⟨y, hy, rfl⟩ := Option.map_eq_some_iff.1 hv
  cases v with
  | double y => exact ⟨y, hread⟩
  | int i =>
    rcases exists_mark_jsonChars d with hmark | hmark
    · exact absurd (isDigit_of_readUnsigned hread _ hmark) (by decide)
    · exact absurd (isDigit_of_readUnsigned hread _ hmark) (by decide)
  | _ => cases hy

/-- The two largest doubles are read, both as the largest. -/
theorem readsDouble_largest (negative : Bool) {m : Nat} (hlow : 2 ^ 53 - 2 ≤ m) (hhigh : m < 2 ^ 53) :
    ReadsDouble (readUnsigned negative (jsonChars (Format.double.shortest .even m 971))) := by
  refine readsDouble_of_asDouble? ?_
  obtain rfl | rfl : m = 2 ^ 53 - 2 ∨ m = 2 ^ 53 - 1 := by omega
  · cases negative <;> decide +kernel
  · cases negative <;> decide +kernel

/-- Below them, the upper end of the rounding interval is far enough from infinity. -/
theorem magnitude_le_readableBound {m : Nat} {unit : Int} (hm : m < 2 ^ 53) (hunit : unit ≤ 971)
    (h : ¬(unit = 971 ∧ 2 ^ 53 - 2 ≤ m)) :
    magnitude (4 * m + 2) (unit - 2) ≤ readableBound := by
  have hpos : (0 : ℚ) < 2 ^ 968 := by positivity
  have hbound : readableBound = (2 ^ 55 - 10) * 2 * 2 ^ 968 := by
    rw [readableBound, pow_succ (2 : ℚ) 968]
    generalize (2 : ℚ) ^ 968 = power
    ring
  rw [hbound, magnitude]
  rcases Int.lt_or_le unit 971 with hsmall | hlarge
  · have hquarters : ((4 * m + 2 : Nat) : ℚ) ≤ 2 ^ 55 := by
      have : 4 * m + 2 ≤ 2 ^ 55 := by omega
      exact_mod_cast this
    have hpower : (2 : ℚ) ^ (unit - 2) ≤ 2 ^ 968 := by
      rw [← zpow_natCast]
      exact zpow_le_zpow_right₀ one_le_two (by norm_num; omega)
    calc ((4 * m + 2 : Nat) : ℚ) * 2 ^ (unit - 2) ≤ 2 ^ 55 * 2 ^ 968 := by gcongr
      _ ≤ (2 ^ 55 - 10) * 2 * 2 ^ 968 := by
        refine mul_le_mul_of_nonneg_right ?_ hpos.le
        norm_num
  · obtain rfl : unit = 971 := le_antisymm hunit hlarge
    have hquarters : ((4 * m + 2 : Nat) : ℚ) ≤ 2 ^ 55 - 10 := by
      have : 4 * m + 2 + 10 ≤ 2 ^ 55 := by omega
      have : ((4 * m + 2 : Nat) : ℚ) + 10 ≤ 2 ^ 55 := by exact_mod_cast this
      linarith
    have hpower : (2 : ℚ) ^ ((971 : ℤ) - 2) = 2 * 2 ^ 968 := by
      rw [show (971 : ℤ) - 2 = ((968 + 1 : Nat) : ℤ) by norm_num, zpow_natCast, pow_succ, mul_comm]
    rw [hpower, ← mul_assoc]
    gcongr

/-- **The text of a finite double is read as a double.** -/
theorem exists_readNumber_double {x : Double} (h : x.isFinite = true) :
    ∃ y, readNumber true (writeChars (.double x)) = some (.double y, []) := by
  rw [writeChars, Double.json?]
  rw [Double.isFinite] at h
  cases hvalue : x.value with
  | nan =>
    rw [hvalue] at h
    cases h
  | infinite negative =>
    rw [hvalue] at h
    cases h
  | finite negative m unit =>
    obtain ⟨hm, hunit⟩ := finite_bounds hvalue
    have hreads : ReadsDouble (readUnsigned negative
        (if m = 0 then ['0', '.', '0'] else jsonChars (Format.double.shortest .even m unit))) := by
      split
      · exact readsDouble_point negative ['0'] ['0'] (List.cons_ne_nil _ _) isDigit_of_mem_zero
          (by decide) (by decide) (List.cons_ne_nil _ _) isDigit_of_mem_zero
      · next hzero =>
        -- The rounding interval of the two largest doubles reaches too far, so they are read by
        -- computation.
        by_cases hlargest : unit = 971 ∧ 2 ^ 53 - 2 ≤ m
        · rw [hlargest.1]
          exact readsDouble_largest negative hlargest.2 hm
        · obtain ⟨hdigits, hmagnitude⟩ :=
            Format.double.shortest_spec .even unit (Nat.pos_of_ne_zero hzero) hm
          exact readsDouble_jsonChars negative hdigits
            (hmagnitude.trans (magnitude_le_readableBound hm hunit hlargest))
    obtain ⟨y, hy⟩ := hreads
    refine ⟨y, ?_⟩
    dsimp only
    split
    · next hzero =>
      rw [if_pos hzero] at hy
      exact readNumber_signed hy
    · next hzero =>
      rw [if_neg hzero] at hy
      exact readNumber_signed hy

end Uplink.Json
