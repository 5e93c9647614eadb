import Mathlib.Algebra.Order.Field.Power
import Mathlib.Tactic.FieldSimp
import Mathlib.Tactic.Linarith
import Mathlib.Tactic.NormNum
import Mathlib.Tactic.Positivity
import Mathlib.Tactic.Ring
import Uplink.Number.Binary

/-!
# Rounding to a binary format

What `Format.nearest` finds is off by half a unit at most, so that a number that is far enough below
infinity does not become infinite, and an integer grows by a small part of itself at most.
-/

namespace Uplink.Number

/-! ## 1. Numbers as rationals -/

def magnitude (m : Nat) (unit : Int) : ℚ := m * 2 ^ unit

theorem zpow_eq_div (base : ℚ) (e : Int) : base ^ e = base ^ e.toNat / base ^ (-e).toNat := by
  obtain ⟨n, rfl | rfl⟩ := Int.eq_nat_or_neg e <;> simp

theorem ratio_snd_pos (m : Nat) (unit : Int) : 0 < (ratio m unit).2 := Nat.two_pow_pos _

theorem ratio_eq (m : Nat) (unit : Int) :
    ((ratio m unit).1 : ℚ) / (ratio m unit).2 = magnitude m unit := by
  rw [ratio, magnitude, zpow_eq_div]
  simp only [Nat.pow_eq, Nat.cast_mul, Nat.cast_pow, Nat.cast_ofNat]
  rw [mul_div_assoc]

/-- A quotient is rounded by half at most. -/
theorem roundHalfEven_bounds (num : Nat) {den : Nat} (hden : 0 < den) :
    2 * num ≤ (2 * roundHalfEven num den + 1) * den ∧
      2 * roundHalfEven num den * den ≤ 2 * num + den := by
  have hdiv := Nat.div_add_mod num den
  have hmod := Nat.mod_lt num hden
  have hquotient : num / den * den = den * (num / den) := Nat.mul_comm _ _
  rw [roundHalfEven]
  generalize num / den = q, num % den = r at *
  split
  · constructor <;> nlinarith
  split
  · constructor <;> nlinarith
  · have hhalf : 2 * r = den := by omega
    obtain hq | hq := Nat.mod_two_eq_zero_or_one q
    · rw [hq]
      constructor <;> nlinarith
    · rw [hq]
      constructor <;> nlinarith

theorem roundHalfEven_near (num : Nat) {den : Nat} (hden : 0 < den) :
    (num : ℚ) / den - 1 / 2 ≤ roundHalfEven num den ∧
      (roundHalfEven num den : ℚ) ≤ num / den + 1 / 2 := by
  obtain ⟨hlow, hhigh⟩ := roundHalfEven_bounds num hden
  have hpos : (0 : ℚ) < den := by exact_mod_cast hden
  have hlow' : (2 : ℚ) * num ≤ (2 * roundHalfEven num den + 1) * den := by exact_mod_cast hlow
  have hhigh' : (2 : ℚ) * roundHalfEven num den * den ≤ 2 * num + den := by exact_mod_cast hhigh
  constructor
  · rw [sub_le_iff_le_add, div_le_iff₀ hpos]
    linarith
  · rw [← sub_le_iff_le_add, le_div_iff₀ hpos]
    linarith

theorem floorLog2_spec {num den : Nat} (hnum : 0 < num) (hden : 0 < den) :
    (2 : ℚ) ^ Format.floorLog2 num den ≤ (num : ℚ) / den ∧
      (num : ℚ) / den < 2 ^ (Format.floorLog2 num den + 1) := by
  have hpos : (0 : ℚ) < den := by exact_mod_cast hden
  have hlog {n : Nat} (hn : 0 < n) :
      (2 : ℚ) ^ (n.log2 : ℤ) ≤ n ∧ (n : ℚ) < 2 ^ ((n.log2 : ℤ) + 1) := by
    have hle := Nat.log2_self_le (Nat.ne_of_gt hn)
    have hlt := @Nat.lt_log2_self n
    constructor
    · rw [zpow_natCast]
      exact_mod_cast hle
    · rw [← Nat.cast_succ, zpow_natCast]
      exact_mod_cast hlt
  obtain ⟨hnumLow, hnumHigh⟩ := hlog hnum
  obtain ⟨hdenLow, hdenHigh⟩ := hlog hden
  -- The guess is the logarithm or one more.
  have hlow : (2 : ℚ) ^ ((num.log2 : ℤ) - den.log2 - 1) ≤ num / den := by
    rw [le_div_iff₀ hpos]
    calc (2 : ℚ) ^ ((num.log2 : ℤ) - den.log2 - 1) * den
        ≤ 2 ^ ((num.log2 : ℤ) - den.log2 - 1) * 2 ^ ((den.log2 : ℤ) + 1) := by gcongr
      _ = 2 ^ (num.log2 : ℤ) := by
        rw [← zpow_add₀ two_ne_zero]
        congr 1
        ring
      _ ≤ num := hnumLow
  have hhigh : (num : ℚ) / den < 2 ^ ((num.log2 : ℤ) - den.log2 + 1) := by
    rw [div_lt_iff₀ hpos]
    calc (num : ℚ) < 2 ^ ((num.log2 : ℤ) + 1) := hnumHigh
      _ = 2 ^ ((num.log2 : ℤ) - den.log2 + 1) * 2 ^ (den.log2 : ℤ) := by
        rw [← zpow_add₀ two_ne_zero]
        congr 1
        ring
      _ ≤ 2 ^ ((num.log2 : ℤ) - den.log2 + 1) * den := by gcongr
  have hguess (guess : ℤ) : den * Nat.pow 2 guess.toNat ≤ num * Nat.pow 2 (-guess).toNat ↔
      (2 : ℚ) ^ guess ≤ num / den := by
    rw [zpow_eq_div, div_le_div_iff₀ (by positivity) hpos, mul_comm]
    simp only [Nat.pow_eq]
    exact_mod_cast Iff.rfl
  rw [Format.floorLog2]
  split
  · next h => exact ⟨(hguess _).1 h, hhigh⟩
  · next h =>
    refine ⟨hlow, ?_⟩
    rw [sub_add_cancel]
    exact lt_of_not_ge fun hge => h ((hguess _).2 hge)

/-! ## 2. The nearest number -/

namespace Format

variable (f : Format)

/-- Bits below those of infinity are those of a number. -/
theorem value_of_lt {bits : Nat} (h : bits < f.infinityBits) :
    f.value bits =
      if bits / 2 ^ f.fraction = 0 then .finite false (bits % 2 ^ f.fraction) f.minUnit
      else .finite false (bits % 2 ^ f.fraction + 2 ^ f.fraction)
        (f.minUnit + ((bits / 2 ^ f.fraction : Nat) - 1)) := by
  rw [infinityBits, Nat.pow_eq, Nat.pow_eq] at h
  have hexponent : bits / 2 ^ f.fraction < 2 ^ f.exponent - 1 :=
    (Nat.div_lt_iff_lt_mul (Nat.two_pow_pos _)).2 h
  have hlt : bits / 2 ^ f.fraction < 2 ^ f.exponent := hexponent.trans_le (Nat.sub_le _ _)
  have hsign : bits / f.signBit = 0 := by
    rw [signBit, Nat.pow_eq, pow_add, ← Nat.div_div_eq_div_mul]
    exact Nat.div_eq_of_lt hlt
  have hfinite : bits / 2 ^ f.fraction + 1 ≠ 2 ^ f.exponent :=
    Nat.ne_of_lt (Nat.add_lt_of_lt_sub hexponent)
  rw [value, hsign]
  simp only [Nat.pow_eq, Nat.mod_eq_of_lt hlt]
  rw [if_neg hfinite]
  rfl

/-- The significand may be one too large; then it is carried into the exponent. -/
theorem exists_value_eq {m steps : Nat} (hlow : steps = 0 ∨ 2 ^ f.fraction ≤ m)
    (hhigh : m ≤ 2 ^ (f.fraction + 1)) (h : steps * 2 ^ f.fraction + m < f.infinityBits) :
    ∃ m' unit', f.value (steps * 2 ^ f.fraction + m) = .finite false m' unit' ∧
      magnitude m' unit' = magnitude m (f.minUnit + steps) := by
  have hpos := Nat.two_pow_pos f.fraction
  rw [pow_succ] at hhigh
  rw [f.value_of_lt h]
  have hdiv : (steps * 2 ^ f.fraction + m) / 2 ^ f.fraction = steps + m / 2 ^ f.fraction := by
    rw [Nat.mul_comm, Nat.mul_add_div hpos]
  have hmod : (steps * 2 ^ f.fraction + m) % 2 ^ f.fraction = m % 2 ^ f.fraction := by
    rw [Nat.mul_comm, Nat.mul_add_mod]
  rw [hdiv, hmod]
  -- The number is subnormal, normal, or the carry makes it the first of the next unit.
  obtain hsmall | hnormal | htop : m < 2 ^ f.fraction ∨
      2 ^ f.fraction ≤ m ∧ m < 2 * 2 ^ f.fraction ∨ m = 2 * 2 ^ f.fraction := by omega
  · obtain rfl : steps = 0 := hlow.resolve_right (by omega)
    rw [Nat.div_eq_of_lt hsmall, Nat.mod_eq_of_lt hsmall, if_pos rfl]
    exact ⟨_, _, rfl, by simp⟩
  · have hone : m / 2 ^ f.fraction = 1 := by
      rw [Nat.div_eq_iff hpos]
      omega
    have hrest : m % 2 ^ f.fraction + 2 ^ f.fraction = m := by
      have := Nat.div_add_mod m (2 ^ f.fraction)
      rw [hone] at this
      omega
    rw [hone, hrest, if_neg (by omega)]
    exact ⟨_, _, rfl, by simp⟩
  · rw [htop, Nat.mul_div_cancel _ hpos, Nat.mul_mod_left, if_neg (by omega)]
    refine ⟨_, _, rfl, ?_⟩
    rw [magnitude, magnitude]
    push_cast
    rw [show f.minUnit + ((steps : ℤ) + 2 - 1) = f.minUnit + steps + 1 by ring,
      zpow_add_one₀ two_ne_zero]
    ring

/-- How a positive quotient is rounded: to a multiple of a unit that is small against it, unless it
is the smallest. -/
theorem nearest_spec {num den : Nat} (hnum : 0 < num) (hden : 0 < den) :
    ∃ steps m : Nat,
      f.nearest num den = min (steps * 2 ^ f.fraction + m) f.infinityBits ∧
      (steps = 0 ∨ (2 : ℚ) ^ (f.minUnit + steps + f.fraction) ≤ num / den) ∧
      (num : ℚ) / den < 2 ^ (f.minUnit + steps + f.fraction + 1) ∧
      (num : ℚ) / den / 2 ^ (f.minUnit + steps) - 1 / 2 ≤ m ∧
      (m : ℚ) ≤ num / den / 2 ^ (f.minUnit + steps) + 1 / 2 := by
  obtain ⟨hlow, hhigh⟩ := floorLog2_spec hnum hden
  have hsteps := Int.toNat_of_nonneg (a := max (floorLog2 num den - f.fraction) f.minUnit - f.minUnit)
    (by omega)
  rw [nearest, if_neg (Nat.ne_of_gt hnum)]
  dsimp only
  -- The unit is that of 53 bits, or the smallest one.
  generalize hunit : max (floorLog2 num den - f.fraction) f.minUnit = unit at *
  generalize (unit - f.minUnit).toNat = steps at *
  obtain rfl : unit = f.minUnit + steps := by omega
  generalize hm : roundHalfEven (num * Nat.pow 2 (-(f.minUnit + (steps : ℤ))).toNat)
    (den * Nat.pow 2 (f.minUnit + (steps : ℤ)).toNat) = m
  have hscale : 0 < den * Nat.pow 2 (f.minUnit + (steps : ℤ)).toNat :=
    Nat.mul_pos hden (Nat.two_pow_pos _)
  have hnear := roundHalfEven_near (num * Nat.pow 2 (-(f.minUnit + (steps : ℤ))).toNat) hscale
  have hscaled : ((num * Nat.pow 2 (-(f.minUnit + (steps : ℤ))).toNat : Nat) : ℚ) /
      (den * Nat.pow 2 (f.minUnit + (steps : ℤ)).toNat : Nat) =
        num / den / 2 ^ (f.minUnit + steps : ℤ) := by
    rw [zpow_eq_div]
    simp only [Nat.pow_eq, Nat.cast_mul, Nat.cast_pow, Nat.cast_ofNat]
    field_simp
  rw [hm, hscaled] at hnear
  refine ⟨steps, m, rfl, ?_, ?_, hnear.1, hnear.2⟩
  · by_cases hzero : steps = 0
    · exact .inl hzero
    · refine .inr (le_trans ?_ hlow)
      exact zpow_le_zpow_right₀ one_le_two (by omega)
  · exact hhigh.trans_le (zpow_le_zpow_right₀ one_le_two (by omega))

/-! ## 3. Doubles -/

/-- The least number that is too large for a double. -/
def beyondDouble : ℚ := (2 ^ 54 - 1) * 2 ^ 970

theorem cast_lt_beyondDouble {n : Nat} (h : n < 18014398509481983 * 2 ^ 970) :
    (n : ℚ) < beyondDouble := by
  have hcast : ((18014398509481983 * 2 ^ 970 : Nat) : ℚ) = beyondDouble := by
    rw [beyondDouble, Nat.cast_mul, Nat.cast_pow, Nat.cast_ofNat, Nat.cast_ofNat]
    congr 1
    norm_num
  rw [← hcast]
  exact Nat.cast_lt.2 h

theorem quotient_lt_of_lt_beyondDouble {q : ℚ} (h : q < beyondDouble) :
    q / 2 ^ (971 : ℤ) < 2 ^ 53 - 1 / 2 := by
  rw [div_lt_iff₀ (by positivity), zpow_ofNat, pow_succ (2 : ℚ) 970]
  refine h.trans_eq ?_
  rw [beyondDouble]
  generalize (2 : ℚ) ^ 970 = power
  ring

theorem beyondDouble_lt : beyondDouble < 2 ^ (1024 : ℤ) := by
  have hpower : (2 : ℚ) ^ (1024 : ℤ) = 2 ^ 54 * 2 ^ 970 := by rw [zpow_ofNat, ← pow_add]
  rw [hpower, beyondDouble]
  gcongr
  linarith

/-- A significand of 53 bits that is rounded is too large by the part `1 / 2 ^ 53` at most. -/
theorem magnitude_le_of_near {q : ℚ} {m : Nat} {unit : ℤ} (hnear : (m : ℚ) ≤ q / 2 ^ unit + 1 / 2)
    (hlarge : (2 : ℚ) ^ (unit + 52) ≤ q) : magnitude m unit ≤ q * (1 + 1 / 2 ^ 53) := by
  have hhalf : (2 : ℚ) ^ unit / 2 ≤ q / 2 ^ 53 := by
    rw [div_le_div_iff₀ two_pos (by positivity)]
    calc (2 : ℚ) ^ unit * 2 ^ 53 = 2 ^ (unit + 52) * 2 := by
          rw [zpow_add₀ two_ne_zero]
          norm_num
          ring
      _ ≤ q * 2 := by gcongr
  rw [magnitude]
  calc (m : ℚ) * 2 ^ unit ≤ (q / 2 ^ unit + 1 / 2) * 2 ^ unit := by gcongr
    _ = q + 2 ^ unit / 2 := by
      field_simp
    _ ≤ q * (1 + 1 / 2 ^ 53) := by linarith

/-- A number that is not too large is rounded to one that is, from the least normal number on, too
large by the part `1 / 2 ^ 53` of it at most. -/
theorem exists_value_nearest {num den : Nat} (hnum : 0 < num) (hden : 0 < den)
    (h : (num : ℚ) / den < beyondDouble) :
    ∃ m unit, double.value (double.nearest num den) = .finite false m unit ∧
      ((2 : ℚ) ^ (-1022 : ℤ) ≤ num / den → magnitude m unit ≤ num / den * (1 + 1 / 2 ^ 53)) := by
  obtain ⟨steps, m, hnearest, hlow, hhigh, hbelow, habove⟩ := double.nearest_spec hnum hden
  have hminUnit : double.minUnit = -1074 := by decide
  have hinfinity : double.infinityBits = 2047 * 2 ^ 52 := by decide
  have hfraction : double.fraction = 52 := rfl
  rw [hminUnit, hfraction, Nat.cast_ofNat] at hlow hhigh
  rw [hminUnit] at hbelow habove
  generalize (num : ℚ) / den = q at *
  generalize hunit : (-1074 : ℤ) + steps = unit at *
  have hpos : (0 : ℚ) < 2 ^ unit := by positivity
  have hquotient : q / 2 ^ unit < 2 ^ 53 := by
    rw [div_lt_iff₀ hpos]
    refine hhigh.trans_eq ?_
    rw [add_assoc, zpow_add₀ two_ne_zero, mul_comm]
    rfl
  -- The significand has 53 bits, or is the next power of two.
  have hm : m ≤ 2 ^ 53 := by
    have : (m : ℚ) < 2 ^ 53 + 1 := by linarith
    exact Nat.lt_succ_iff.1 (by exact_mod_cast this)
  have hnormal : (2 : ℚ) ^ (unit + 52) ≤ q → 2 ^ 52 ≤ m := by
    intro hq
    have hscaled : (2 : ℚ) ^ 52 ≤ q / 2 ^ unit := by
      rw [le_div_iff₀ hpos]
      refine le_trans (le_of_eq ?_) hq
      rw [zpow_add₀ two_ne_zero, mul_comm]
      rfl
    have : (2 : ℚ) ^ 52 < m + 1 := by linarith
    exact Nat.lt_succ_iff.1 (by exact_mod_cast this)
  have hfits : steps * 2 ^ 52 + m < 2047 * 2 ^ 52 := by
    rcases Nat.lt_trichotomy steps 2045 with hsmall | htop | hlarge
    · omega
    · obtain rfl : unit = 971 := by omega
      have hscaled := quotient_lt_of_lt_beyondDouble h
      have : (m : ℚ) < 2 ^ 53 := by linarith
      have : m < 2 ^ 53 := by exact_mod_cast this
      omega
    · have hge : (2 : ℚ) ^ (1024 : ℤ) ≤ q :=
        (zpow_le_zpow_right₀ one_le_two (by omega)).trans (hlow.resolve_left (by omega))
      exact absurd (beyondDouble_lt.trans_le hge) (not_lt.2 (le_of_lt h))
  rw [← hinfinity] at hfits
  obtain ⟨m', unit', hvalue, hmagnitude⟩ :=
    double.exists_value_eq (hlow.imp_right hnormal) hm hfits
  rw [hminUnit, hunit] at hmagnitude
  refine ⟨m', unit', ?_, fun hq => ?_⟩
  · rw [hnearest, hfraction, Nat.min_eq_left (Nat.le_of_lt hfits)]
    exact hvalue
  · have hlarge : (2 : ℚ) ^ (unit + 52) ≤ q := by
      rcases hlow with rfl | hlow
      · rwa [← hunit]
      · exact hlow
    rw [hmagnitude]
    exact magnitude_le_of_near (by linarith) hlarge

end Format

namespace Double

theorem nearest_zero (f : Format) (den : Nat) : f.nearest 0 den = 0 := by
  rw [Format.nearest, if_pos rfl]

theorem value_ofRatio (num den : Nat) :
    (ofRatio false num den).value = Format.double.value (Format.double.nearest num den) := by
  have hle : Format.double.nearest num den ≤ Format.double.infinityBits := by
    rw [Format.nearest]
    split
    · exact Nat.zero_le _
    · exact Nat.min_le_right _ _
  have hinfinity : Format.double.infinityBits < 2 ^ 64 := by decide
  have hbits : (ofRatio false num den).bits.toNat = Format.double.nearest num den := by
    show (UInt64.ofNat (0 + Format.double.nearest num den)).toNat = _
    rw [Nat.zero_add]
    exact UInt64.toNat_ofNat_of_lt' (hle.trans_lt hinfinity)
  rw [value, hbits]

/-- A natural number that is not too large has a double, which is too large by a small part of it at
most. -/
theorem exists_value_ofInt {n : Nat} (h : (n : ℚ) < Format.beyondDouble) :
    ∃ m unit, (ofInt n).value = .finite false m unit ∧
      magnitude m unit ≤ n * (1 + 1 / 2 ^ 53) := by
  have hofInt : ofInt n = ofRatio false n 1 := by
    have hsign : decide ((n : ℤ) < 0) = false := decide_eq_false (Int.not_lt.2 (Int.natCast_nonneg n))
    rw [ofInt, Int.natAbs_natCast, hsign]
  rw [hofInt, value_ofRatio]
  rcases Nat.eq_zero_or_pos n with rfl | hpos
  · rw [nearest_zero]
    exact ⟨_, _, rfl, by simp [magnitude]⟩
  · have hone : (1 : ℚ) ≤ n := by exact_mod_cast hpos
    have hvalue := Format.exists_value_nearest hpos Nat.one_pos (by simpa using h)
    rw [Nat.cast_one, div_one] at hvalue
    obtain ⟨m, unit, hfinite, hle⟩ := hvalue
    refine ⟨m, unit, hfinite, hle (le_trans ?_ hone)⟩
    exact zpow_le_one_of_nonpos₀ one_le_two (by norm_num)

/-- A product of numbers that is not too large is no infinity. -/
theorem isInfinite_mul {x y : Double} {m n : Nat} {u v : Int} (hx : x.value = .finite false m u)
    (hy : y.value = .finite false n v)
    (h : magnitude m u * magnitude n v < Format.beyondDouble) : (x.mul y).isInfinite = false := by
  have hproduct : x.mul y = ofRatio false (ratio (m * n) (u + v)).1 (ratio (m * n) (u + v)).2 := by
    rw [mul, hx, hy]
    rfl
  have hratio : ((ratio (m * n) (u + v)).1 : ℚ) / (ratio (m * n) (u + v)).2 =
      magnitude m u * magnitude n v := by
    rw [ratio_eq, magnitude, magnitude, magnitude, zpow_add₀ two_ne_zero]
    push_cast
    ring
  rw [isInfinite, hproduct, value_ofRatio]
  rcases Nat.eq_zero_or_pos (ratio (m * n) (u + v)).1 with hzero | hpos
  · rw [hzero, nearest_zero]
    rfl
  · obtain ⟨m', unit', hvalue, -⟩ :=
      Format.exists_value_nearest hpos (ratio_snd_pos _ _) (hratio ▸ h)
    rw [hvalue]

/-- **A product of natural numbers is no infinity if it would not be too large when both were a small
part larger.** -/
theorem isInfinite_mul_ofInt {s t : Nat} (hs : (s : ℚ) < Format.beyondDouble)
    (ht : (t : ℚ) < Format.beyondDouble)
    (h : (s : ℚ) * t * (1 + 1 / 2 ^ 53) ^ 2 < Format.beyondDouble) :
    ((ofInt s).mul (ofInt t)).isInfinite = false := by
  obtain ⟨m, u, hx, hm⟩ := exists_value_ofInt hs
  obtain ⟨n, v, hy, hn⟩ := exists_value_ofInt ht
  have hpos : 0 ≤ magnitude n v := by
    rw [magnitude]
    positivity
  refine isInfinite_mul hx hy (lt_of_le_of_lt ?_ h)
  calc magnitude m u * magnitude n v
      ≤ s * (1 + 1 / 2 ^ 53) * (t * (1 + 1 / 2 ^ 53)) := by gcongr
    _ = s * t * (1 + 1 / 2 ^ 53) ^ 2 := by ring

end Double

end Uplink.Number
