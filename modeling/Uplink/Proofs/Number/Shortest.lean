import Mathlib.Data.Nat.Cast.Order.Field
import Uplink.Number.Shortest
import Uplink.Proofs.Number.Rounding

/-!
# Decimal numbers that read back

The search for a short decimal number ends with a point of the rounding interval: on a grid that is
finer than a quarter of a unit, the neighbour below the number is one.
-/

namespace Uplink.Number

def Decimal.magnitude (d : Decimal) : ℚ := d.digits * 10 ^ d.exponent

namespace Interval

variable (i : Interval) (e : Int)

/-- So many quarters, and so many steps of a grid, in a unit that both are whole multiples of. -/
def left (quarters : Nat) : Nat :=
  quarters * Nat.pow 2 i.unit.toNat * Nat.pow 10 (-e).toNat

def right (point : Nat) : Nat :=
  point * Nat.pow 2 (-i.unit).toNat * Nat.pow 10 e.toNat

def Contains (point : Nat) : Prop :=
  if i.closed then i.left e i.low ≤ i.right e point ∧ i.right e point ≤ i.left e i.high
  else i.left e i.low < i.right e point ∧ i.right e point < i.left e i.high

instance (point : Nat) : Decidable (i.Contains e point) := by
  unfold Contains
  infer_instance

theorem pointOn?_eq (tie : Tie) :
    let below := i.left e i.middle / i.right e 1
    i.pointOn? tie e =
      if i.Contains e below then
        if i.Contains e (below + 1) then
          if i.left e i.middle - i.right e below < i.right e (below + 1) - i.left e i.middle then
            some below
          else if i.right e (below + 1) - i.left e i.middle < i.left e i.middle - i.right e below then
            some (below + 1)
          else match tie with
            | .up => some (below + 1)
            | .even => some (below + below % 2)
        else some below
      else if i.Contains e (below + 1) then some (below + 1)
      else none :=
  rfl

theorem contains_of_pointOn? {tie : Tie} {point : Nat} (h : i.pointOn? tie e = some point) :
    i.Contains e point := by
  rw [pointOn?_eq] at h
  generalize i.left e i.middle / i.right e 1 = below at h
  split at h
  · next hbelow =>
    split at h
    · next habove =>
      split at h
      · cases h
        exact hbelow
      split at h
      · cases h
        exact habove
      · cases tie with
        | up =>
          cases h
          exact habove
        | even =>
          cases h
          obtain heven | hodd := Nat.mod_two_eq_zero_or_one below
          · rwa [heven]
          · rwa [hodd]
    · cases h
      exact hbelow
  · split at h
    · next habove =>
      cases h
      exact habove
    · cases h

theorem left_le_right_iff (quarters point : Nat) :
    i.left e quarters ≤ i.right e point ↔
      Number.magnitude quarters i.unit ≤ (point : ℚ) * 10 ^ e := by
  rw [Number.magnitude, zpow_eq_div 2, zpow_eq_div 10, ← mul_div_assoc, ← mul_div_assoc,
    div_le_div_iff₀ (by positivity) (by positivity), left, right]
  simp only [Nat.pow_eq]
  rw [← Nat.cast_le (α := ℚ)]
  push_cast
  rw [mul_right_comm (point : ℚ)]

theorem right_le_left_iff (quarters point : Nat) :
    i.right e point ≤ i.left e quarters ↔
      (point : ℚ) * 10 ^ e ≤ Number.magnitude quarters i.unit := by
  rw [Number.magnitude, zpow_eq_div 2, zpow_eq_div 10, ← mul_div_assoc, ← mul_div_assoc,
    div_le_div_iff₀ (by positivity) (by positivity), left, right]
  simp only [Nat.pow_eq]
  rw [← Nat.cast_le (α := ℚ)]
  push_cast
  rw [mul_right_comm (point : ℚ)]

theorem Contains.bounds {i : Interval} {e : Int} {point : Nat} (h : i.Contains e point) :
    Number.magnitude i.low i.unit ≤ (point : ℚ) * 10 ^ e ∧
      (point : ℚ) * 10 ^ e ≤ Number.magnitude i.high i.unit := by
  rw [← left_le_right_iff, ← right_le_left_iff]
  rw [Contains] at h
  split at h
  · exact h
  · exact ⟨Nat.le_of_lt h.1, Nat.le_of_lt h.2⟩

/-- On a grid that is fine enough there is a point. -/
theorem exists_pointOn? (tie : Tie) (hstep : (10 : ℚ) ^ e ≤ 2 ^ i.unit)
    (hlow : i.low < i.middle) (hhigh : i.middle < i.high) : ∃ point, i.pointOn? tie e = some point := by
  have hpos : 0 < i.right e 1 := by
    rw [right, Nat.pow_eq, Nat.pow_eq]
    positivity
  have hmul (quarters : Nat) : i.left e quarters = quarters * i.left e 1 := by
    simp only [left, Nat.one_mul, Nat.mul_assoc]
  have hpoint (point : Nat) : i.right e point = point * i.right e 1 := by
    simp only [right, Nat.one_mul, Nat.mul_assoc]
  have hfine : i.right e 1 ≤ i.left e 1 := by
    rw [right_le_left_iff, Number.magnitude]
    simpa using hstep
  -- The last point up to the middle misses it by less than a step of the grid, and both ends of the
  -- interval are a step away or more.
  have hbelow : i.Contains e (i.left e i.middle / i.right e 1) := by
    have hdiv := Nat.div_add_mod (i.left e i.middle) (i.right e 1)
    have hmod := Nat.mod_lt (i.left e i.middle) hpos
    have hstrict : i.left e i.low < i.right e (i.left e i.middle / i.right e 1) ∧
        i.right e (i.left e i.middle / i.right e 1) < i.left e i.high := by
      have hdown : i.left e i.low + i.left e 1 ≤ i.left e i.middle := by
        rw [hmul i.low, hmul i.middle, ← Nat.succ_mul]
        exact Nat.mul_le_mul_right _ hlow
      have hup : i.left e i.middle + i.left e 1 ≤ i.left e i.high := by
        rw [hmul i.high, hmul i.middle, ← Nat.succ_mul]
        exact Nat.mul_le_mul_right _ hhigh
      rw [hpoint, Nat.mul_comm]
      omega
    rw [Contains]
    split
    · exact ⟨Nat.le_of_lt hstrict.1, Nat.le_of_lt hstrict.2⟩
    · exact hstrict
  rw [pointOn?_eq, if_pos hbelow]
  split
  · split
    · exact ⟨_, rfl⟩
    split
    · exact ⟨_, rfl⟩
    · cases tie with
      | up => exact ⟨_, rfl⟩
      | even => exact ⟨_, rfl⟩
  · exact ⟨_, rfl⟩

/-- If there is a point on the last grid, the first point is found. -/
theorem pointOn?_search {tie : Tie} {grids : Nat} {e : Int}
    (h : ∃ point, i.pointOn? tie (e - grids) = some point) :
    i.pointOn? tie (i.search tie (grids + 1) e).exponent =
      some (i.search tie (grids + 1) e).digits := by
  induction grids generalizing e with
  | zero =>
    obtain ⟨point, hpoint⟩ := h
    rw [Nat.cast_zero, sub_zero] at hpoint
    rw [search, hpoint]
    exact hpoint
  | succ grids ih =>
    rw [search]
    split
    · next hpoint => exact hpoint
    · refine ih ?_
      obtain ⟨point, hpoint⟩ := h
      refine ⟨point, ?_⟩
      rw [← hpoint]
      congr 1
      push_cast
      ring

end Interval

/-! ## The first grid -/

theorem digitCount_le_iff {n k : Nat} (hk : 0 < k) : digitCount n ≤ k ↔ n < 10 ^ k :=
  Nat.length_toDigits_le_iff (by decide) hk

theorem pow_digitCount_le {n : Nat} (hn : 0 < n) : 10 ^ (digitCount n - 1) ≤ n := by
  rcases Nat.lt_or_ge 1 (digitCount n) with hmany | hone
  · by_contra hlt
    have := (digitCount_le_iff (by omega)).2 (Nat.lt_of_not_le hlt)
    omega
  · rw [Nat.sub_eq_zero_of_le hone]
    exact hn

theorem pow_topExponent_le {num den : Nat} (hnum : 0 < num) (hden : 0 < den) :
    (10 : ℚ) ^ (topExponent num den - 2) ≤ num / den := by
  have hden' : (0 : ℚ) < den := by exact_mod_cast hden
  have hnum' : (0 : ℚ) < num := by exact_mod_cast hnum
  rw [topExponent]
  split
  · next hle =>
    have hquotient : 0 < num / den := Nat.div_pos hle hden
    have hcount : 0 < digitCount (num / den) := Nat.length_toDigits_pos
    calc (10 : ℚ) ^ ((digitCount (num / den) : ℤ) - 2)
        ≤ 10 ^ ((digitCount (num / den) - 1 : Nat) : ℤ) :=
          zpow_le_zpow_right₀ (by norm_num) (by omega)
      _ = ((10 ^ (digitCount (num / den) - 1) : Nat) : ℚ) := by
        rw [zpow_natCast]
        push_cast
        rfl
      _ ≤ (num / den : Nat) := by exact_mod_cast pow_digitCount_le hquotient
      _ ≤ num / den := Nat.cast_div_le
  · have hcount : 0 < digitCount (den / num) := Nat.length_toDigits_pos
    have hlt : den < num * 10 ^ digitCount (den / num) := by
      rw [Nat.mul_comm]
      exact (Nat.div_lt_iff_lt_mul hnum).1 ((digitCount_le_iff hcount).1 (Nat.le_refl _))
    have hlt' : (den : ℚ) ≤ num * 10 ^ digitCount (den / num) := by exact_mod_cast Nat.le_of_lt hlt
    rw [sub_sub_cancel_left, zpow_neg, zpow_natCast, inv_le_iff_one_le_mul₀ (by positivity),
      div_mul_eq_mul_div, le_div_iff₀ hden', one_mul]
    exact hlt'

/-- **The shortest decimal number is positive and lies in the rounding interval.** -/
theorem Format.shortest_spec (f : Format) (tie : Tie) {m : Nat} (unit : Int) (hpos : 0 < m)
    (hm : m < 2 ^ 53) :
    0 < (f.shortest tie m unit).digits ∧
      (f.shortest tie m unit).magnitude ≤ Number.magnitude (4 * m + 2) (unit - 2) := by
  have hlow : 0 < (f.interval m unit).low ∧ (f.interval m unit).low < 4 * m := by
    rw [interval]
    dsimp only
    split <;> omega
  have hgrid : (10 : ℚ) ^ (topExponent (ratio m unit).1 (ratio m unit).2 - (20 : Nat)) ≤
      2 ^ (unit - 2) := by
    have hnum : 0 < (ratio m unit).1 := Nat.mul_pos hpos (Nat.two_pow_pos _)
    have htop := pow_topExponent_le hnum (ratio_snd_pos m unit)
    rw [ratio_eq, Number.magnitude] at htop
    generalize topExponent (ratio m unit).1 (ratio m unit).2 = top at htop ⊢
    have hm' : (m : ℚ) ≤ 2 ^ 53 := by exact_mod_cast Nat.le_of_lt hm
    calc (10 : ℚ) ^ (top - (20 : Nat)) = 10 ^ (top - 2) / 10 ^ 18 := by
          rw [← zpow_natCast, ← zpow_sub₀ (by norm_num)]
          congr 1
          push_cast
          ring
      _ ≤ m * 2 ^ unit / 10 ^ 18 := by gcongr
      _ ≤ 2 ^ 53 * 2 ^ unit / 10 ^ 18 := by gcongr
      _ = 2 ^ unit * (2 ^ 53 / 10 ^ 18) := by ring
      _ ≤ 2 ^ unit * (1 / 2 ^ 2) := by
        refine mul_le_mul_of_nonneg_left ?_ (by positivity)
        norm_num
      _ = 2 ^ (unit - 2) := by
        rw [zpow_sub₀ two_ne_zero, mul_one_div]
        norm_num
  have hfound := (f.interval m unit).pointOn?_search
    ((f.interval m unit).exists_pointOn? _ tie hgrid hlow.2 (Nat.lt_add_of_pos_right Nat.two_pos))
  obtain ⟨hfrom, hto⟩ := ((f.interval m unit).contains_of_pointOn? _ hfound).bounds
  refine ⟨Nat.pos_of_ne_zero fun hzero => ?_, hto⟩
  -- Zero does not lie in the interval.
  change (f.shortest tie m unit).digits = 0 at hzero
  change _ ≤ ((f.shortest tie m unit).digits : ℚ) * _ at hfrom
  rw [hzero, Nat.cast_zero, zero_mul, Number.magnitude] at hfrom
  have : (0 : ℚ) < (f.interval m unit).low := by exact_mod_cast hlow.1
  exact absurd hfrom (not_le.2 (by positivity))

end Uplink.Number
