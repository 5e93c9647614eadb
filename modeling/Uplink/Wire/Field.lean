import Uplink.Wire.Varint

/-!
# Fields of a binary message

A message is a sequence of fields, each a key and a value. The key carries the field's number and
how its value is laid out. A group is a field that contains fields, up to a closing key of its own
number. `write` lays out fields and `readAll` reads a whole message.
-/

namespace Uplink.Wire

/-- A field with its number. -/
inductive Field where
  | varint (number : Nat) (value : Nat)
  | fixed64 (number : Nat) (value : Nat)
  | delimited (number : Nat) (bytes : List UInt8)
  | group (number : Nat) (fields : List Field)
  | fixed32 (number : Nat) (value : Nat)
deriving Repr

/-- The largest field number. -/
def maxNumber : Nat := 536870911

/-- The depth to which messages and groups may be nested. -/
def maxDepth : Nat := 100

namespace Field

def number : Field → Nat
  | varint n _ => n
  | fixed64 n _ => n
  | delimited n _ => n
  | group n _ => n
  | fixed32 n _ => n

def key (number layout : Nat) : List UInt8 := Wire.varint (number * 8 + layout)

def write : Field → List UInt8
  | varint n v => key n 0 ++ Wire.varint v
  | fixed64 n v => key n 1 ++ fixed 8 v
  | delimited n bs => key n 2 ++ Wire.varint bs.length ++ bs
  | group n fields => key n 3 ++ (fields.attach.map fun ⟨f, _⟩ => f.write).flatten ++ key n 4
  | fixed32 n v => key n 5 ++ fixed 4 v

def writeAll (fields : List Field) : List UInt8 := (fields.map write).flatten

/-- What a key announces. -/
inductive Head where
  | varint (number : Nat)
  | fixed64 (number : Nat)
  | delimited (number : Nat)
  | opening (number : Nat)
  | closing (number : Nat)
  | fixed32 (number : Nat)

def readHead (bs : List UInt8) : Option (Head × List UInt8) := do
  let (key, rest) ← readVarint bs
  -- Keys have 32 bits, although their varints have room for more.
  if UInt32.size ≤ key then none
  let number := key / 8
  if number = 0 then none
  match key % 8 with
  | 0 => some (.varint number, rest)
  | 1 => some (.fixed64 number, rest)
  | 2 => some (.delimited number, rest)
  | 3 => some (.opening number, rest)
  | 4 => some (.closing number, rest)
  | 5 => some (.fixed32 number, rest)
  | _ => none

/-- Read what may stand next: a field, or the closing key of a group. `depth` is how many levels
may still be opened. The first number is fuel; each step takes at least one byte. -/
def readItem : Nat → Nat → List UInt8 → Option ((Field ⊕ Nat) × List UInt8)
  | 0, _, _ => none
  | fuel + 1, depth, bs => do
    let (head, rest) ← readHead bs
    match head with
    -- The end of a group is read at any depth.
    | .closing n => some (.inr n, rest)
    | .opening n =>
      if depth = 0 then none
      let (fields, rest) ← readGroup fuel (depth - 1) n rest
      some (.inl (.group n fields), rest)
    | .varint n =>
      if depth = 0 then none
      let (v, rest) ← readVarint rest
      some (.inl (.varint n v), rest)
    | .fixed64 n =>
      if depth = 0 then none
      let (v, rest) ← readBytes 8 rest
      some (.inl (.fixed64 n (ofFixed v)), rest)
    | .delimited n =>
      if depth = 0 then none
      let (count, rest) ← readVarint rest
      let (v, rest) ← readBytes count rest
      some (.inl (.delimited n v), rest)
    | .fixed32 n =>
      if depth = 0 then none
      let (v, rest) ← readBytes 4 rest
      some (.inl (.fixed32 n (ofFixed v)), rest)
where
  /-- Read the fields of a group and its closing key. -/
  readGroup : Nat → Nat → Nat → List UInt8 → Option (List Field × List UInt8)
    | 0, _, _, _ => none
    | fuel + 1, depth, number, bs => do
      let (item, rest) ← readItem fuel depth bs
      match item with
      | .inr n => if n = number then some ([], rest) else none
      | .inl field =>
        let (fields, rest) ← readGroup fuel depth number rest
        some (field :: fields, rest)

def readFields : Nat → Nat → List UInt8 → Option (List Field)
  | _, _, [] => some []
  | 0, _, _ :: _ => none
  | fuel + 1, depth, b :: bs => do
    match ← readItem (2 * bs.length + 4) depth (b :: bs) with
    | (.inl field, rest) =>
      let fields ← readFields fuel depth rest
      some (field :: fields)
    | (.inr _, _) => none

/-- Read a message that lies at a depth of so many levels. -/
def readAll (level : Nat) (bs : List UInt8) : Option (List Field) :=
  readFields bs.length (maxDepth - level) bs

end Field

end Uplink.Wire
