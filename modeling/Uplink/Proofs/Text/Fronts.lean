import Mathlib.Data.Nat.Find
import Mathlib.Data.String.Basic
import Uplink.Text.Utf8

/-!
# Fronts of a text

How much of a text there is room for, when its bytes count and no character may be cut. Taken from
the front, that is as many characters as fit, one after the other. Looked for from behind, it is
what stands before the last place at which a character ends. The two are the same front, the longest
one, and the search for it is short: no character has more than four bytes.
-/

namespace Uplink.Utf8

/-! ## 1. Widths -/

theorem width_eq (c : Char) : width c = c.utf8Size := by
  simp only [width, Char.utf8Size, UInt32.le_iff_toNat_le]
  show (if c.val.toNat < 128 then 1 else if c.val.toNat < 2048 then 2
      else if c.val.toNat < 65536 then 3 else 4) =
    if c.val.toNat ≤ 127 then 1 else if c.val.toNat ≤ 2047 then 2
      else if c.val.toNat ≤ 65535 then 3 else 4
  simp only [← Nat.lt_succ_iff]

theorem width_pos (c : Char) : 0 < width c := by
  rw [width_eq]
  exact c.utf8Size_pos

theorem width_le_four (c : Char) : width c ≤ 4 := by
  rw [width_eq]
  exact c.utf8Size_le_four

theorem widthSum_cons (c : Char) (cs : List Char) : widthSum (c :: cs) = width c + widthSum cs :=
  rfl

theorem widthSum_append (front behind : List Char) :
    widthSum (front ++ behind) = widthSum front + widthSum behind := by
  induction front with
  | nil => exact (Nat.zero_add _).symm
  | cons c front ih => rw [List.cons_append, widthSum_cons, widthSum_cons, ih, Nat.add_assoc]

theorem widthSum_le_of_isPrefix {front cs : List Char} (h : front <+: cs) :
    widthSum front ≤ widthSum cs := by
  obtain ⟨behind, rfl⟩ := h
  rw [widthSum_append]
  exact Nat.le_add_right _ _

theorem utf8ByteSize_ofList (cs : List Char) : (String.ofList cs).utf8ByteSize = widthSum cs := by
  rw [String.utf8ByteSize_ofList]
  induction cs with
  | nil => rfl
  | cons c cs ih => rw [String.utf8Len_cons, widthSum_cons, ih, width_eq, Nat.add_comm]

theorem length_bytes (text : String) : (bytes text).length = text.utf8ByteSize := by
  rw [bytes, Array.length_toList]
  exact String.size_toByteArray

/-! ## 2. The characters that fit -/

/-- As many characters from the front as there is room for. -/
def fit : Nat → List Char → List Char
  | _, [] => []
  | room, c :: cs => if width c ≤ room then c :: fit (room - width c) cs else []

theorem fit_isPrefix (room : Nat) (cs : List Char) : fit room cs <+: cs := by
  induction cs generalizing room with
  | nil => exact List.prefix_refl []
  | cons c cs ih =>
    rw [fit]
    split
    · exact List.cons_prefix_cons.2 ⟨rfl, ih _⟩
    · exact List.nil_prefix

theorem widthSum_fit_le (room : Nat) (cs : List Char) : widthSum (fit room cs) ≤ room := by
  induction cs generalizing room with
  | nil => exact Nat.zero_le room
  | cons c cs ih =>
    rw [fit]
    split
    · have hrest := ih (room - width c)
      rw [widthSum_cons]
      omega
    · exact Nat.zero_le room

/-- Every front that fits is part of this one. -/
theorem isPrefix_fit {room : Nat} {front cs : List Char} (hfront : front <+: cs)
    (hroom : widthSum front ≤ room) : front <+: fit room cs := by
  induction cs generalizing front room with
  | nil =>
    rw [List.prefix_nil.1 hfront]
    exact List.nil_prefix
  | cons c cs ih =>
    rcases List.prefix_cons_iff.1 hfront with rfl | ⟨rest, rfl, hrest⟩
    · exact List.nil_prefix
    · rw [widthSum_cons] at hroom
      rw [fit, if_pos (by omega)]
      exact List.cons_prefix_cons.2 ⟨rfl, ih hrest (by omega)⟩

/-- What is left of the room is less than a character takes. -/
theorem lt_widthSum_fit {room : Nat} {cs : List Char} (h : room ≤ widthSum cs) :
    room < widthSum (fit room cs) + 4 := by
  induction cs generalizing room with
  | nil =>
    have hroom : room = 0 := Nat.le_zero.1 h
    omega
  | cons c cs ih =>
    rw [widthSum_cons] at h
    rw [fit]
    split
    · have hrest : room - width c < widthSum (fit (room - width c) cs) + 4 := ih (by omega)
      rw [widthSum_cons]
      omega
    · -- The next character does not fit, so less room than it takes is left.
      have hwidth := width_le_four c
      omega

theorem fit_append {room : Nat} {front : List Char} (h : room < widthSum front)
    (behind : List Char) : fit room (front ++ behind) = fit room front := by
  induction front generalizing room with
  | nil => exact absurd h (Nat.not_lt_zero _)
  | cons c front ih =>
    rw [widthSum_cons] at h
    rw [List.cons_append, fit, fit]
    split
    · rw [ih (by omega)]
    · rfl

/-! ## 3. The search from behind -/

/-- The search looks at each place, and stops at the last one between two characters. -/
theorem sub_stepsBack (text : String) (place : Nat) : place - stepsBack text place =
    Nat.findGreatest (fun n => String.Pos.Raw.IsValid text ⟨n⟩) place := by
  induction place with
  | zero => rfl
  | succ place ih =>
    rw [stepsBack, Nat.findGreatest_succ]
    simp only [String.Pos.Raw.isValid_eq_true_iff]
    split
    · rfl
    · rw [Nat.add_sub_add_right, ih]

theorem stepsBack_le (text : String) (place : Nat) : stepsBack text place ≤ place := by
  induction place with
  | zero => exact Nat.le_refl 0
  | succ place ih =>
    rw [stepsBack]
    split
    · exact Nat.zero_le _
    · exact Nat.succ_le_succ ih

/-- The places between characters are where the fronts of a text end. -/
theorem isValid_ofList_iff {cs : List Char} {n : Nat} :
    String.Pos.Raw.IsValid (String.ofList cs) ⟨n⟩ ↔ ∃ front, front <+: cs ∧ widthSum front = n := by
  rw [String.Pos.Raw.isValid_ofList]
  constructor
  · rintro ⟨i, hi⟩
    exact ⟨cs.take i, List.take_prefix i cs, by rw [← utf8ByteSize_ofList, ← hi]⟩
  · rintro ⟨front, hfront, rfl⟩
    refine ⟨front.length, ?_⟩
    rw [← List.prefix_iff_eq_take.1 hfront, utf8ByteSize_ofList]

/-- The search stops where no more characters fit. -/
theorem sub_stepsBack_ofList (cs : List Char) (room : Nat) :
    room - stepsBack (String.ofList cs) room = widthSum (fit room cs) := by
  rw [sub_stepsBack, Nat.findGreatest_eq_iff]
  refine ⟨widthSum_fit_le room cs, fun _ => isValid_ofList_iff.2 ⟨_, fit_isPrefix room cs, rfl⟩, ?_⟩
  intro n hn hroom hvalid
  -- A later place would be the end of a longer front that fits.
  obtain ⟨front, hfront, rfl⟩ := isValid_ofList_iff.1 hvalid
  have hle := widthSum_le_of_isPrefix (isPrefix_fit hfront hroom)
  omega

/-- No character makes the search go back more than three steps. -/
theorem stepsBack_le_three {text : String} {place : Nat} (h : place ≤ text.utf8ByteSize) :
    stepsBack text place ≤ 3 := by
  obtain ⟨cs, rfl⟩ := text.exists_eq_ofList
  rw [utf8ByteSize_ofList] at h
  have hfit := lt_widthSum_fit h
  have hplace := sub_stepsBack_ofList cs place
  have hle := stepsBack_le (String.ofList cs) place
  omega

/-! ## 4. The front before the place that was found -/

theorem bytes_front (text : String) (room : Nat) :
    bytes (front text room) = (bytes text).take (room - stepsBack text room) := by
  simp only [bytes, front, String.toByteArray_extract, ByteArray.data_extract, Array.toList_extract,
    String.offset_startPos, List.extract_eq_take_drop]
  rfl

theorem front_ofList (cs : List Char) (room : Nat) :
    front (String.ofList cs) room = String.ofList (fit room cs) := by
  -- As bytes, since the place that was found is a number of bytes and not of characters.
  apply bytes_injective
  obtain ⟨behind, hbehind⟩ := fit_isPrefix room cs
  have hlength : (bytes (String.ofList (fit room cs))).length = widthSum (fit room cs) := by
    rw [length_bytes, utf8ByteSize_ofList]
  have hbytes : bytes (String.ofList cs) =
      bytes (String.ofList (fit room cs)) ++ bytes (String.ofList behind) := by
    rw [bytes_ofList, bytes_ofList, bytes_ofList, ← List.flatMap_append, hbehind]
  rw [bytes_front, sub_stepsBack_ofList, hbytes, List.take_left' hlength]

/-- A front that fits into some bytes, and of which every other front that does is a part. -/
structure IsLongestFront (room : Nat) (front text : String) : Prop where
  isFront : front.toList <+: text.toList
  fits : front.utf8ByteSize ≤ room
  longest : ∀ other : String, other.toList <+: text.toList → other.utf8ByteSize ≤ room →
    other.toList <+: front.toList

theorem isLongestFront_front (room : Nat) (text : String) :
    IsLongestFront room (front text room) text := by
  obtain ⟨cs, rfl⟩ := text.exists_eq_ofList
  rw [front_ofList]
  constructor
  · rw [String.toList_ofList, String.toList_ofList]
    exact fit_isPrefix room cs
  · rw [utf8ByteSize_ofList]
    exact widthSum_fit_le room cs
  · intro other hother hroom
    rw [String.toList_ofList] at hother ⊢
    rw [← String.ofList_toList (s := other), utf8ByteSize_ofList] at hroom
    exact isPrefix_fit hother hroom

/-- Nine bytes end before the last byte of the smiley. -/
example : stepsBack "aé€😀" 9 = 3 ∧ front "aé€😀" 9 = "aé€" := by decide

theorem utf8ByteSize_front (text : String) (room : Nat) :
    (front text room).utf8ByteSize = room - stepsBack text room := by
  obtain ⟨cs, rfl⟩ := text.exists_eq_ofList
  rw [front_ofList, utf8ByteSize_ofList, sub_stepsBack_ofList]

end Uplink.Utf8
