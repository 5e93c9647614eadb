/-!
# UTF-8

Texts as bytes. `bytes` writes a text, `ofBytes?` reads one and refuses ill-formed bytes, and
`lossy` reads any bytes at all: each maximal part that cannot belong to a character becomes one
replacement character. `front` cuts a text at a number of bytes, but never within a character.
-/

namespace Uplink.Utf8

def bytes (text : String) : List UInt8 :=
  text.toByteArray.data.toList

/-- The text that these bytes spell, if they are well formed. -/
def ofBytes? (bs : List UInt8) : Option String :=
  String.fromUTF8? ⟨⟨bs⟩⟩

@[simp] theorem ofBytes?_bytes (text : String) : ofBytes? (bytes text) = some text := by
  cases text with
  | ofByteArray b h => simp [ofBytes?, bytes, String.fromUTF8?, String.fromUTF8, h]

theorem bytes_of_ofBytes? {bs : List UInt8} {text : String} (h : ofBytes? bs = some text) :
    bytes text = bs := by
  simp only [ofBytes?, String.fromUTF8?] at h
  split at h
  · cases h; rfl
  · cases h

theorem bytes_injective {a b : String} (h : bytes a = bytes b) : a = b := by
  have := congrArg ofBytes? h
  simpa using this

/-- Each character of a text has bytes of its own. -/
theorem bytes_ofList (cs : List Char) :
    bytes (String.ofList cs) = cs.flatMap String.utf8EncodeChar := by
  rw [bytes, String.toByteArray_ofList, List.utf8Encode, List.data_toByteArray]

/-- The number of bytes that a character takes. -/
def width (c : Char) : Nat :=
  if c.toNat < 0x80 then 1
  else if c.toNat < 0x800 then 2
  else if c.toNat < 0x10000 then 3
  else 4

/-- The number of bytes that a list of characters takes. -/
def widthSum (cs : List Char) : Nat :=
  (cs.map width).foldr (· + ·) 0

/-! ## Places between characters -/

/-- How many steps it is, byte by byte, from a place in a text back to the nearest one at which a
character begins or the text ends. -/
def stepsBack (text : String) : Nat → Nat
  | 0 => 0
  | place + 1 =>
    if String.Pos.Raw.isValid text ⟨place + 1⟩ then 0 else stepsBack text place + 1

theorem isValid_stepsBack (text : String) (place : Nat) :
    String.Pos.Raw.IsValid text ⟨place - stepsBack text place⟩ := by
  induction place with
  | zero => exact String.Pos.Raw.isValid_zero
  | succ place ih =>
    rw [stepsBack]
    split
    · next h => exact String.Pos.Raw.isValid_eq_true_iff.1 h
    · rw [Nat.add_sub_add_right]
      exact ih

/-- The front of a text up to a place in it, less the bytes of a character that goes on behind that
place. -/
def front (text : String) (place : Nat) : String :=
  text.extract text.startPos ⟨⟨place - stepsBack text place⟩, isValid_stepsBack text place⟩

/-! ## Reading any bytes -/

/-- A character that has begun: the value so far and the ranges in which its next bytes must
lie. -/
structure Begun where
  value : Nat
  expected : List (Nat × Nat)

/-- What a byte is when no character has begun. -/
inductive Lead where
  | whole (c : Char)
  | opens (begun : Begun)
  | stray

/-- Sort a byte that stands where a character may begin. The first range after some leads is
narrower, which rules out overlong forms, surrogates and values past U+10FFFF. -/
def lead (b : UInt8) : Lead :=
  let n := b.toNat
  let any := (0x80, 0xBF)
  if n < 0x80 then .whole (Char.ofNat n)
  else if 0xC2 ≤ n ∧ n ≤ 0xDF then .opens ⟨n - 0xC0, [any]⟩
  else if n = 0xE0 then .opens ⟨0, [(0xA0, 0xBF), any]⟩
  else if n = 0xED then .opens ⟨n - 0xE0, [(0x80, 0x9F), any]⟩
  else if 0xE1 ≤ n ∧ n ≤ 0xEF then .opens ⟨n - 0xE0, [any, any]⟩
  else if n = 0xF0 then .opens ⟨0, [(0x90, 0xBF), any, any]⟩
  else if 0xF1 ≤ n ∧ n ≤ 0xF3 then .opens ⟨n - 0xF0, [any, any, any]⟩
  else if n = 0xF4 then .opens ⟨4, [(0x80, 0x8F), any, any]⟩
  else .stray

def replacement : Char := '\uFFFD'

/-- Read the remaining bytes of a text in which a character may have begun. -/
def lossyFrom : Option Begun → List UInt8 → List Char
  | none, [] => []
  | some _, [] => [replacement]
  | begun, b :: bs =>
    match begun with
    | some ⟨value, (low, high) :: later⟩ =>
      if low ≤ b.toNat ∧ b.toNat ≤ high then
        let value := value * 64 + (b.toNat - 0x80)
        if later.isEmpty then Char.ofNat value :: lossyFrom none bs
        else lossyFrom (some ⟨value, later⟩) bs
      else
        -- The byte does not belong to the character that had begun, but may begin another.
        replacement :: fresh b bs
    | _ => fresh b bs
where
  /-- Read a byte at which no character has begun, and what follows it. -/
  fresh (b : UInt8) (bs : List UInt8) : List Char :=
    match lead b with
    | .whole c => c :: lossyFrom none bs
    | .opens begun => lossyFrom (some begun) bs
    | .stray => replacement :: lossyFrom none bs

/-- The text of any bytes, with a replacement character for each maximal ill-formed part. -/
def lossy (bs : List UInt8) : String :=
  String.ofList (lossyFrom none bs)

end Uplink.Utf8
