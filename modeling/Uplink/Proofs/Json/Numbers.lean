import Uplink.Json.Reader
import Uplink.Json.Writer

/-!
# Numbers in JSON

A number ends where a character stands that cannot go on with it. What is read up to there does not
depend on what follows, so a number that is read back by itself is read back within an array or an
object. Integers of 64 bits are.
-/

namespace Uplink.Json

open Number

/-! ## 1. Where numbers end -/

/-- The text does not go on with a number. -/
def EndsNumber (rest : List Char) : Prop :=
  ∀ c ∈ rest.head?, c.isDigit = false ∧ c ≠ '.' ∧ c ≠ 'e' ∧ c ≠ 'E'

def EndsDigits (rest : List Char) : Prop := ∀ c ∈ rest.head?, c.isDigit = false

theorem EndsNumber.endsDigits {rest : List Char} (h : EndsNumber rest) : EndsDigits rest :=
  fun c hc => (h c hc).1

/-- What is read of a text stays the same if what follows does not go on with a number. -/
def IsLocal {α : Type} (read : List Char → Option (α × List Char)) : Prop :=
  ∀ {cs : List Char} {v : α} {tail : List Char}, read cs = some (v, tail) →
    ∀ {rest : List Char}, EndsNumber rest → read (cs ++ rest) = some (v, tail ++ rest)

theorem takeDigits_append (bound n count : Nat) (cs : List Char) {rest : List Char}
    (h : EndsDigits rest) :
    takeDigits bound n count (cs ++ rest) =
      ((takeDigits bound n count cs).1, (takeDigits bound n count cs).2.1,
        (takeDigits bound n count cs).2.2 ++ rest) := by
  induction cs generalizing n count with
  | nil =>
    cases rest with
    | nil => rfl
    | cons c rest =>
      have hdigit := h c rfl
      simp [takeDigits, hdigit]
  | cons c cs ih =>
    rw [List.cons_append, takeDigits, takeDigits]
    split
    · exact ih _ _
    · rfl

theorem dropWhile_isDigit_append (cs : List Char) {rest : List Char} (h : EndsDigits rest) :
    (cs ++ rest).dropWhile Char.isDigit = cs.dropWhile Char.isDigit ++ rest := by
  induction cs with
  | nil =>
    cases rest with
    | nil => rfl
    | cons c rest =>
      have hdigit := h c rfl
      simp [hdigit]
  | cons c cs ih =>
    rw [List.cons_append, List.dropWhile_cons, List.dropWhile_cons, ih]
    split <;> rfl

theorem takeWhile_isDigit_append (cs : List Char) {rest : List Char} (h : EndsDigits rest) :
    (cs ++ rest).takeWhile Char.isDigit = cs.takeWhile Char.isDigit := by
  induction cs with
  | nil =>
    cases rest with
    | nil => rfl
    | cons c rest =>
      have hdigit := h c rfl
      simp [hdigit]
  | cons c cs ih =>
    rw [List.cons_append, List.takeWhile_cons, List.takeWhile_cons, ih]

theorem length_takeWhile_le (cs : List Char) : (cs.takeWhile Char.isDigit).length ≤ cs.length :=
  (List.takeWhile_prefix _).length_le

/-! ## 2. What is read of a number -/

def exponentSign : List Char → Bool × List Char
  | '+' :: cs => (false, cs)
  | '-' :: cs => (true, cs)
  | cs => (false, cs)

theorem exponentSign_append {cs : List Char} (h : cs ≠ []) (rest : List Char) :
    exponentSign (cs ++ rest) = ((exponentSign cs).1, (exponentSign cs).2 ++ rest) := by
  obtain ⟨c, cs, rfl⟩ := List.exists_cons_of_ne_nil h
  by_cases hplus : c = '+'
  · subst hplus
    rfl
  · by_cases hminus : c = '-'
    · subst hminus
      rfl
    · simp [exponentSign, hplus, hminus]

def exponentDigits (negative : Bool) (significand : Nat) (exponent : Int) (down : Bool)
    (cs : List Char) : Option (Measured × List Char) :=
  match takeDigits maxExponent 0 0 cs with
  | (_, 0, _) => none
  | (n, _, rest) =>
    match rest with
    | c :: _ =>
      if c.isDigit then
        let zero := if negative then Double.zero.neg else Double.zero
        some (if significand ≠ 0 ∧ !down then none else some (double zero),
          rest.dropWhile Char.isDigit)
      else some (readExponent.finish negative significand exponent n down, rest)
    | [] => some (readExponent.finish negative significand exponent n down, rest)

theorem readExponent_eq (negative : Bool) (significand : Nat) (exponent : Int) (cs : List Char) :
    readExponent negative significand exponent cs =
      exponentDigits negative significand exponent (exponentSign cs).1 (exponentSign cs).2 := rfl

theorem isLocal_exponentDigits (negative : Bool) (significand : Nat) (exponent : Int)
    (down : Bool) : IsLocal (exponentDigits negative significand exponent down) := by
  intro cs v tail h rest hrest
  have happend := takeDigits_append maxExponent 0 0 cs hrest.endsDigits
  rw [exponentDigits] at h ⊢
  rcases htake : takeDigits maxExponent 0 0 cs with ⟨n, count, more⟩
  rw [htake] at h happend
  rw [happend]
  cases count with
  | zero => cases h
  | succ count =>
    cases more with
    | cons c more =>
      change (if c.isDigit = true then _ else _) = _ at h
      show (if c.isDigit = true then some (_, ((c :: more) ++ rest).dropWhile Char.isDigit)
        else _) = _
      split at h
      · next hdigit =>
        rw [if_pos hdigit, dropWhile_isDigit_append _ hrest.endsDigits]
        cases h
        rfl
      · next hdigit =>
        rw [if_neg hdigit]
        cases h
        rfl
    | nil =>
      -- The digits go up to the end, and what comes behind them begins with no digit.
      cases h
      cases rest with
      | nil => rfl
      | cons c rest =>
        have hdigit := (hrest c rfl).1
        simp [hdigit]

theorem isLocal_readExponent (negative : Bool) (significand : Nat) (exponent : Int) :
    IsLocal (readExponent negative significand exponent) := by
  intro cs v tail h rest hrest
  have hne : cs ≠ [] := by
    rintro rfl
    cases h
  rw [readExponent_eq] at h ⊢
  rw [exponentSign_append hne]
  exact isLocal_exponentDigits _ _ _ _ h hrest

theorem readScale_of_ne (negative : Bool) (significand : Nat) (exponent : Int) {cs : List Char}
    (h : ∀ c ∈ cs.head?, c ≠ 'e' ∧ c ≠ 'E') :
    readScale negative significand exponent cs =
      some ((ofParts negative significand exponent).map double, cs) := by
  rw [readScale.eq_def]
  split
  · exact absurd rfl (h 'e' rfl).1
  · exact absurd rfl (h 'E' rfl).2
  · rfl

theorem isLocal_readScale (negative : Bool) (significand : Nat) (exponent : Int) :
    IsLocal (readScale negative significand exponent) := by
  intro cs v tail h rest hrest
  by_cases hscale : ∀ c ∈ cs.head?, c ≠ 'e' ∧ c ≠ 'E'
  · have hscale' : ∀ c ∈ (cs ++ rest).head?, c ≠ 'e' ∧ c ≠ 'E' := by
      cases cs with
      | nil => exact fun c hc => (hrest c hc).2.2
      | cons c cs => exact hscale
    rw [readScale_of_ne _ _ _ hscale] at h
    rw [readScale_of_ne _ _ _ hscale']
    cases h
    rfl
  · cases cs with
    | nil => simp at hscale
    | cons c cs =>
      have hc : ¬c = 'e' → c = 'E' := by simpa using hscale
      rcases Decidable.or_iff_not_imp_left.2 hc with rfl | rfl
      · exact isLocal_readExponent negative significand exponent h hrest
      · exact isLocal_readExponent negative significand exponent h hrest

theorem isLocal_readPlaces (negative : Bool) (significand : Nat) (exponent : Int) :
    IsLocal (readPlaces negative significand exponent) := by
  intro cs v tail h rest hrest
  cases cs with
  | nil => cases h
  | cons c cs =>
    have happend := takeDigits_append maxSignificand significand 0 (c :: cs) hrest.endsDigits
    rw [readPlaces] at h ⊢
    split at h
    · next hdigit =>
      have hdigit' : ((c :: cs ++ rest).head?.map Char.isDigit).getD false = true := hdigit
      rw [if_pos hdigit', happend]
      dsimp only at h ⊢
      rw [dropWhile_isDigit_append _ hrest.endsDigits]
      exact isLocal_readScale _ _ _ h hrest
    · cases h

/-- What follows the digits of a significand. Some of them may be places only. -/
def afterDigits (negative : Bool) (n : Nat) (more cs : List Char) :
    Option (Measured × List Char) :=
  match cs with
  | '.' :: cs => readPlaces negative n more.length cs
  | 'e' :: cs | 'E' :: cs => readExponent negative n more.length cs
  | cs =>
    if more.isEmpty then some (some (whole negative n), cs)
    else some ((ofParts negative n more.length).map double, cs)

theorem afterDigits_of_ne (negative : Bool) (n : Nat) (more : List Char) {cs : List Char}
    (h : ∀ c ∈ cs.head?, c ≠ '.' ∧ c ≠ 'e' ∧ c ≠ 'E') :
    afterDigits negative n more cs =
      if more.isEmpty then some (some (whole negative n), cs)
      else some ((ofParts negative n more.length).map double, cs) := by
  rw [afterDigits.eq_def]
  split
  · exact absurd rfl (h '.' rfl).1
  · exact absurd rfl (h 'e' rfl).2.1
  · exact absurd rfl (h 'E' rfl).2.2
  · rfl

theorem isLocal_afterDigits (negative : Bool) (n : Nat) (more : List Char) :
    IsLocal (afterDigits negative n more) := by
  intro cs v tail h rest hrest
  by_cases hplain : ∀ c ∈ cs.head?, c ≠ '.' ∧ c ≠ 'e' ∧ c ≠ 'E'
  · have hplain' : ∀ c ∈ (cs ++ rest).head?, c ≠ '.' ∧ c ≠ 'e' ∧ c ≠ 'E' := by
      cases cs with
      | nil => exact fun c hc => (hrest c hc).2
      | cons c cs => exact hplain
    rw [afterDigits_of_ne _ _ _ hplain] at h
    rw [afterDigits_of_ne _ _ _ hplain']
    split at h
    · next hmore =>
      rw [if_pos hmore]
      cases h
      rfl
    · next hmore =>
      rw [if_neg hmore]
      cases h
      rfl
  · cases cs with
    | nil => simp at hplain
    | cons c cs =>
      have hc : ¬c = '.' → ¬c = 'e' → c = 'E' := by simpa using hplain
      rcases Decidable.or_iff_not_imp_left.2 fun h => Decidable.or_iff_not_imp_left.2 (hc h) with
        rfl | rfl | rfl
      · exact isLocal_readPlaces negative n more.length h hrest
      · exact isLocal_readExponent negative n more.length h hrest
      · exact isLocal_readExponent negative n more.length h hrest

/-- The number begins with a zero before another digit. -/
def hasLeadingZero (cs : List Char) : Bool :=
  cs.head? = some '0' && ((cs.tail.head?.map Char.isDigit).getD false)

theorem hasLeadingZero_append {cs rest : List Char} (h : cs ≠ []) (hrest : EndsDigits rest) :
    hasLeadingZero (cs ++ rest) = hasLeadingZero cs := by
  obtain ⟨c, more, rfl⟩ := List.exists_cons_of_ne_nil h
  cases more with
  | cons d more => rfl
  | nil =>
    cases rest with
    | nil => rfl
    | cons d rest =>
      have hdigit := hrest d rfl
      simp [hasLeadingZero, hdigit]

theorem readUnsigned_eq (negative : Bool) (cs : List Char) :
    readUnsigned negative cs =
      if (takeDigits maxSignificand 0 0 cs).2.1 = 0 ∨ hasLeadingZero cs = true then none
      else
        let rest := (takeDigits maxSignificand 0 0 cs).2.2
        afterDigits negative (takeDigits maxSignificand 0 0 cs).1 (rest.takeWhile Char.isDigit)
          (rest.drop (rest.takeWhile Char.isDigit).length) := by
  rw [readUnsigned]
  rcases takeDigits maxSignificand 0 0 cs with ⟨n, count, rest⟩
  cases count with
  | zero => rfl
  | succ count =>
    have hcount : count + 1 ≠ 0 := Nat.succ_ne_zero count
    simp only [hcount, false_or]
    rfl

theorem head_of_readUnsigned {negative : Bool} {cs : List Char} {v : Measured × List Char}
    (h : readUnsigned negative cs = some v) : ∃ c more, cs = c :: more ∧ c.isDigit = true := by
  cases cs with
  | nil => cases h
  | cons c more =>
    cases hdigit : c.isDigit with
    | true => exact ⟨c, more, rfl, hdigit⟩
    | false =>
      have hnone : (takeDigits maxSignificand 0 0 (c :: more)).2.1 = 0 := by
        simp [takeDigits, hdigit]
      rw [readUnsigned_eq, if_pos (.inl hnone)] at h
      cases h

theorem isLocal_readUnsigned (negative : Bool) : IsLocal (readUnsigned negative) := by
  intro cs v tail h rest hrest
  obtain ⟨c, more, hcs, -⟩ := head_of_readUnsigned h
  have hne : cs ≠ [] := hcs ▸ List.cons_ne_nil c more
  rw [readUnsigned_eq] at h ⊢
  rw [takeDigits_append _ _ _ _ hrest.endsDigits, hasLeadingZero_append hne hrest.endsDigits]
  dsimp only at h ⊢
  split at h
  · cases h
  · next hnumber =>
    rw [if_neg hnumber, takeWhile_isDigit_append _ hrest.endsDigits,
      List.drop_append_of_le_length (length_takeWhile_le _)]
    exact isLocal_afterDigits _ _ _ h hrest

/-- What is made of the number that was measured. -/
def checkNumber (checked : Bool) (v : Measured × List Char) : Option (Json × List Char) :=
  match v.1 with
  | some value => some (value, v.2)
  | none => if checked then none else some (null, v.2)

theorem readNumber_minus (checked : Bool) (cs : List Char) :
    readNumber checked ('-' :: cs) = (readUnsigned true cs).bind (checkNumber checked) := rfl

theorem readNumber_of_ne (checked : Bool) {cs : List Char} (h : ∀ c ∈ cs.head?, c ≠ '-') :
    readNumber checked cs = (readUnsigned false cs).bind (checkNumber checked) := by
  simp only [readNumber]
  split
  · exact absurd rfl (h '-' rfl)
  · rfl

theorem checkNumber_append (checked : Bool) {v : Measured × List Char} {value : Json}
    {tail : List Char} (h : checkNumber checked v = some (value, tail)) (rest : List Char) :
    checkNumber checked (v.1, v.2 ++ rest) = some (value, tail ++ rest) := by
  obtain ⟨measured, more⟩ := v
  cases measured with
  | some value' =>
    cases h
    rfl
  | none =>
    cases checked with
    | true => cases h
    | false =>
      cases h
      rfl

theorem isLocal_bind_checkNumber (checked negative : Bool) :
    IsLocal fun cs => (readUnsigned negative cs).bind (checkNumber checked) := by
  intro cs v tail h rest hrest
  obtain ⟨⟨measured, more⟩, hread, hcheck⟩ := Option.bind_eq_some_iff.1 h
  show (readUnsigned negative (cs ++ rest)).bind (checkNumber checked) = _
  rw [isLocal_readUnsigned negative hread hrest]
  exact checkNumber_append checked hcheck rest

theorem head_of_readNumber {checked : Bool} {cs : List Char} {v : Json × List Char}
    (h : readNumber checked cs = some v) :
    ∃ c more, cs = c :: more ∧ (c = '-' ∨ c.isDigit = true) := by
  cases cs with
  | nil => cases h
  | cons c more =>
    by_cases hminus : c = '-'
    · exact ⟨c, more, rfl, .inl hminus⟩
    · have hhead : ∀ d ∈ (c :: more).head?, d ≠ '-' := fun d hd => Option.mem_some.1 hd ▸ hminus
      rw [readNumber_of_ne checked hhead] at h
      obtain ⟨w, hread, -⟩ := Option.bind_eq_some_iff.1 h
      obtain ⟨d, more', hcs, hdigit⟩ := head_of_readUnsigned hread
      exact ⟨d, more', hcs, .inr hdigit⟩

/-- **What is read of a number does not depend on what follows it.** -/
theorem isLocal_readNumber (checked : Bool) : IsLocal (readNumber checked) := by
  intro cs v tail h rest hrest
  obtain ⟨c, more, rfl, -⟩ := head_of_readNumber h
  by_cases hminus : c = '-'
  · subst hminus
    exact isLocal_bind_checkNumber checked true h hrest
  · have hhead (later : List Char) : ∀ d ∈ (c :: later).head?, d ≠ '-' :=
      fun d hd => Option.mem_some.1 hd ▸ hminus
    rw [readNumber_of_ne checked (hhead more)] at h
    rw [List.cons_append, readNumber_of_ne checked (hhead (more ++ rest))]
    exact isLocal_bind_checkNumber checked false h hrest

/-! ## 3. Integers -/

theorem le_ofDigitChars (cs : List Char) (n : Nat) : n ≤ Nat.ofDigitChars 10 cs n := by
  induction cs generalizing n with
  | nil => exact Nat.le_refl n
  | cons c cs ih =>
    rw [Nat.ofDigitChars_cons]
    have := ih (10 * n + (c.toNat - '0'.toNat))
    omega

theorem takeDigits_of_isDigit {bound n count : Nat} {cs : List Char}
    (hdigits : ∀ c ∈ cs, c.isDigit = true) (h : Nat.ofDigitChars 10 cs n ≤ bound) :
    takeDigits bound n count cs = (Nat.ofDigitChars 10 cs n, count + cs.length, []) := by
  induction cs generalizing n count with
  | nil => rfl
  | cons c cs ih =>
    obtain ⟨hc, hcs⟩ := List.forall_mem_cons.1 hdigits
    have hvalue : n * 10 + digitOf c = 10 * n + (c.toNat - '0'.toNat) := by
      rw [Nat.mul_comm, digitOf]
    rw [Nat.ofDigitChars_cons] at h ⊢
    have hle : n * 10 + digitOf c ≤ bound := by
      rw [hvalue]
      exact Nat.le_trans (le_ofDigitChars cs _) h
    rw [takeDigits, hc, if_pos (by simpa using hle), hvalue, ih hcs h, List.length_cons]
    simp only [Nat.add_assoc, Nat.add_comm 1]

/-- The digits of a number begin with a zero only if there are no others. -/
theorem head_toDigits {n : Nat} (h : 10 ≤ n) : (Nat.toDigits 10 n).head? ≠ some '0' := by
  induction n using Nat.strongRecOn with
  | ind n ih =>
    have hdigits := Nat.toDigits_append_toDigits (b := 10) (n := n / 10) (d := n % 10) (by decide)
      (by omega) (by omega)
    rw [Nat.div_add_mod n 10] at hdigits
    rw [← hdigits, List.head?_append]
    by_cases hsmall : n / 10 < 10
    · rw [Nat.toDigits_of_lt_base hsmall]
      have hlead : ∀ d < 10, d ≠ 0 → Nat.digitChar d ≠ '0' := by decide
      simpa using hlead (n / 10) hsmall (by omega)
    · have hhead := ih (n / 10) (by omega) (by omega)
      have hne : Nat.toDigits 10 (n / 10) ≠ [] := Nat.toDigits_ne_nil
      obtain ⟨c, cs, hcs⟩ := List.exists_cons_of_ne_nil hne
      rw [hcs] at hhead ⊢
      simpa using hhead

theorem hasLeadingZero_toDigits (n : Nat) : hasLeadingZero (Nat.toDigits 10 n) = false := by
  by_cases h : n < 10
  · rw [Nat.toDigits_of_lt_base h, hasLeadingZero]
    simp
  · simp [hasLeadingZero, head_toDigits (Nat.le_of_not_lt h)]

theorem readUnsigned_toDigits (negative : Bool) {n : Nat} (h : n ≤ maxSignificand) :
    readUnsigned negative (Nat.toDigits 10 n) = some (some (whole negative n), []) := by
  have hdigits : ∀ c ∈ Nat.toDigits 10 n, c.isDigit = true := fun c hc =>
    Nat.isDigit_of_mem_toDigits (by decide) (by decide) hc
  have hvalue : Nat.ofDigitChars 10 (Nat.toDigits 10 n) 0 = n :=
    Nat.ofDigitChars_toDigits (by decide) (by decide)
  have htake : takeDigits maxSignificand 0 0 (Nat.toDigits 10 n) =
      (Nat.ofDigitChars 10 (Nat.toDigits 10 n) 0, 0 + (Nat.toDigits 10 n).length, []) :=
    takeDigits_of_isDigit hdigits (hvalue.symm ▸ h)
  have hpos : 0 < (Nat.toDigits 10 n).length := Nat.length_toDigits_pos
  rw [readUnsigned_eq, htake, hvalue, hasLeadingZero_toDigits, if_neg (by simp)]
  rfl

/-- **Integers of 64 bits are read back.** -/
theorem readNumber_int {i : Int} (hmin : Int64.minValue.toInt ≤ i)
    (hmax : i ≤ Int64.maxValue.toInt) :
    readNumber true (writeChars (.int i)) = some (.int i, []) := by
  have hbounds : Int64.minValue.toInt = -9223372036854775808 ∧
      Int64.maxValue.toInt = 9223372036854775807 ∧ maxSignificand = 18446744073709551615 := by
    decide
  obtain ⟨hminValue, hmaxValue, hbound⟩ := hbounds
  rw [hminValue] at hmin
  rw [hmaxValue] at hmax
  cases i with
  | ofNat n =>
    have hchars : writeChars (.int (.ofNat n)) = Nat.toDigits 10 n := by
      rw [writeChars]
      exact Nat.toList_repr
    have hhead : ∀ d ∈ (Nat.toDigits 10 n).head?, d ≠ '-' := fun d hd => by
      have hdigit := Nat.isDigit_of_mem_toDigits (by decide) (by decide) (List.mem_of_mem_head? hd)
      rintro rfl
      exact absurd hdigit (by decide)
    rw [Int.ofNat_eq_natCast] at hmax
    rw [hchars, readNumber_of_ne true hhead, readUnsigned_toDigits false (by omega)]
    rfl
  | negSucc n =>
    have hchars : writeChars (.int (.negSucc n)) = '-' :: Nat.toDigits 10 (n + 1) := by
      rw [writeChars]
      show ("-" ++ Nat.repr (n + 1)).toList = _
      rw [String.toList_append, Nat.toList_repr]
      rfl
    -- With a sign, a magnitude of 2^63 is still that of an integer.
    rw [Int.negSucc_eq] at hmin
    have hwhole : whole true (n + 1) = .int (.negSucc n) := by
      rw [whole, hminValue]
      have hfits : ¬(n + 1 = 0 ∨ Int.natAbs (-9223372036854775808) < n + 1) := by omega
      rw [if_neg hfits]
      rfl
    rw [hchars, readNumber_minus, readUnsigned_toDigits true (by omega), hwhole]
    rfl

/-! ## 4. Doubles -/

/-- What was measured is a double, if it is not too large. -/
def GivesDouble (r : Option (Measured × List Char)) : Prop :=
  ∀ {v : Json} {rest : List Char}, r = some (some v, rest) → ∃ x, v = .double x

theorem givesDouble_map (x : Option Double) (rest : List Char) :
    GivesDouble (some (x.map double, rest)) := by
  intro v tail h
  cases x with
  | none => cases h
  | some x =>
    cases h
    exact ⟨x, rfl⟩

theorem givesDouble_exponentDigits (negative : Bool) (significand : Nat) (exponent : Int)
    (down : Bool) (cs : List Char) :
    GivesDouble (exponentDigits negative significand exponent down cs) := by
  rw [exponentDigits]
  split
  · rintro v rest ⟨⟩
  · split
    · split
      · intro v rest h
        dsimp only at h
        by_cases hlarge : significand ≠ 0 ∧ (!down) = true
        · rw [if_pos hlarge] at h
          cases h
        · rw [if_neg hlarge] at h
          cases h
          exact ⟨_, rfl⟩
      · exact givesDouble_map _ _
    · exact givesDouble_map _ _

theorem givesDouble_readExponent (negative : Bool) (significand : Nat) (exponent : Int)
    (cs : List Char) : GivesDouble (readExponent negative significand exponent cs) := by
  rw [readExponent_eq]
  exact givesDouble_exponentDigits _ _ _ _ _

theorem givesDouble_readPlaces (negative : Bool) (significand : Nat) (exponent : Int)
    (cs : List Char) : GivesDouble (readPlaces negative significand exponent cs) := by
  rw [readPlaces]
  split
  · dsimp only
    rw [readScale.eq_def]
    split
    · exact givesDouble_readExponent _ _ _ _
    · exact givesDouble_readExponent _ _ _ _
    · exact givesDouble_map _ _
  · rintro v rest ⟨⟩

theorem isDigit_of_takeDigits {bound n count : Nat} {cs : List Char}
    (h : (takeDigits bound n count cs).2.2 = []) : ∀ c ∈ cs, c.isDigit = true := by
  induction cs generalizing n count with
  | nil => rintro c ⟨⟩
  | cons c cs ih =>
    rw [takeDigits] at h
    split at h
    · next hc =>
      have hdigit : c.isDigit = true := (Bool.and_eq_true_iff.1 hc).1
      exact List.forall_mem_cons.2 ⟨hdigit, ih h⟩
    · cases h

/-- An integer is written with digits only. -/
theorem isDigit_of_readUnsigned {negative : Bool} {cs : List Char} {i : Int}
    (h : readUnsigned negative cs = some (some (.int i), [])) : ∀ c ∈ cs, c.isDigit = true := by
  rw [readUnsigned_eq] at h
  split at h
  · cases h
  · next hnumber =>
    have hdigits : (takeDigits maxSignificand 0 0 cs).2.2 = [] → ∀ c ∈ cs, c.isDigit = true :=
      isDigit_of_takeDigits
    refine hdigits ?_
    clear hdigits
    generalize (takeDigits maxSignificand 0 0 cs).2.2 = rest at h ⊢
    dsimp only at h
    rw [afterDigits.eq_def] at h
    split at h
    · obtain ⟨x, hx⟩ := givesDouble_readPlaces _ _ _ _ h
      cases hx
    · obtain ⟨x, hx⟩ := givesDouble_readExponent _ _ _ _ h
      cases hx
    · obtain ⟨x, hx⟩ := givesDouble_readExponent _ _ _ _ h
      cases hx
    · split at h
      · next hempty =>
        rw [List.isEmpty_iff.1 hempty] at h
        exact (Prod.mk.inj (Option.some.inj h)).2
      · obtain ⟨x, hx⟩ := givesDouble_map _ _ h
        cases hx

theorem isDigit_of_readNumber {cs : List Char} {i : Int}
    (h : readNumber true cs = some (.int i, [])) : ∀ c ∈ cs, c = '-' ∨ c.isDigit = true := by
  have hunsigned {negative : Bool} {cs : List Char}
      (h : (readUnsigned negative cs).bind (checkNumber true) = some (.int i, [])) :
      ∀ c ∈ cs, c.isDigit = true := by
    obtain ⟨⟨measured, rest⟩, hread, hcheck⟩ := Option.bind_eq_some_iff.1 h
    cases measured with
    | none => cases hcheck
    | some v =>
      cases hcheck
      exact isDigit_of_readUnsigned hread
  obtain ⟨c, more, rfl, -⟩ := head_of_readNumber h
  by_cases hminus : c = '-'
  · subst hminus
    exact List.forall_mem_cons.2 ⟨.inl rfl, fun d hd => .inr (hunsigned h d hd)⟩
  · have hhead : ∀ d ∈ (c :: more).head?, d ≠ '-' := fun d hd => Option.mem_some.1 hd ▸ hminus
    rw [readNumber_of_ne true hhead] at h
    exact fun d hd => .inr (hunsigned h d hd)

theorem exists_point_positional {d : Decimal} (h : d.exponent < 0) : '.' ∈ positional d := by
  have hplaces : (-d.exponent).toNat ≠ 0 := by omega
  rw [positional, if_neg hplaces]
  split <;> simp

theorem exists_mark_jsonChars (d : Decimal) : '.' ∈ jsonChars d ∨ 'e' ∈ jsonChars d := by
  rw [jsonChars]
  split
  · split
    · exact .inl (by simp)
    · next hexponent => exact .inl (exists_point_positional (Int.not_le.1 hexponent))
  · split
    · next hdigits => exact absurd hdigits Nat.toDigits_ne_nil
    · exact .inr (by simp [exponentChars])
    · exact .inr (by simp [exponentChars])

/-- A double is never written as an integer: there is a point or an exponent. -/
theorem exists_mark_double {x : Double} (h : x.isFinite = true) :
    ∃ c ∈ writeChars (.double x), c = '.' ∨ c = 'e' := by
  have hsigned (negative : Bool) {cs : List Char} (h : '.' ∈ cs ∨ 'e' ∈ cs) :
      ∃ c ∈ (signed negative cs).toList, c = '.' ∨ c = 'e' := by
    rw [signed, String.toList_ofList]
    rcases h with h | h
    · exact ⟨'.', by split <;> simp [h], .inl rfl⟩
    · exact ⟨'e', by split <;> simp [h], .inr rfl⟩
  rw [Double.isFinite] at h
  rw [writeChars, Double.json?]
  cases hvalue : x.value with
  | finite negative m unit =>
    dsimp only
    split
    · exact hsigned negative (.inl (by decide))
    · exact hsigned negative (exists_mark_jsonChars _)
  | nan =>
    rw [hvalue] at h
    cases h
  | infinite negative =>
    rw [hvalue] at h
    cases h

/-- A double that is read back is read back as a double. -/
theorem readNumber_double {x : Double} (hfinite : x.isFinite = true) {v : Json}
    (h : readNumber true (writeChars (.double x)) = some (v, [])) (hv : v.asDouble? = some x) :
    v = .double x := by
  cases v with
  | double y => exact congrArg double (Option.some.inj hv)
  | int i =>
    obtain ⟨c, hc, hmark⟩ := exists_mark_double hfinite
    rcases hmark with rfl | rfl
    · exact absurd (isDigit_of_readNumber h _ hc) (by decide)
    · exact absurd (isDigit_of_readNumber h _ hc) (by decide)
  | _ => cases hv

end Uplink.Json
