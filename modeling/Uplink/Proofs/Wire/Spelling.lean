import Uplink.Wire.Field

/-!
# Which bytes are a message

A message may be spelled in more ways than the one in which it is written here: a varint may have
more bytes than it needs. The grammar of all spellings is given apart from the reader, and the
reader accepts a message if and only if its bytes are spelled so.
-/

namespace Uplink.Wire

/-! ## 1. Numbers -/

/-- Bytes spell a number, seven bits each and lowest first. Only the last of them is below 128. -/
inductive SpellsNumber : List UInt8 → Nat → Prop where
  | last {b : UInt8} (hb : b.toNat < 128) : SpellsNumber [b] b.toNat
  | more {b : UInt8} {bs : List UInt8} {n : Nat} (hb : 128 ≤ b.toNat) (hbs : SpellsNumber bs n) :
      SpellsNumber (b :: bs) (b.toNat - 128 + 128 * n)

/-- Bytes are a varint: at most ten of them, for a number of 64 bits. -/
structure IsVarint (bs : List UInt8) (n : Nat) : Prop where
  spells : SpellsNumber bs n
  length_le : bs.length ≤ 10
  lt : n < UInt64.size

theorem SpellsNumber.length_pos {bs : List UInt8} {n : Nat} (h : SpellsNumber bs n) :
    0 < bs.length := by
  cases h <;> exact Nat.succ_pos _

theorem readVarintUpTo_eq_some_iff {places n : Nat} {bs rest : List UInt8} :
    readVarintUpTo (places + 1) bs = some (n, rest) ↔
      ∃ front, bs = front ++ rest ∧ SpellsNumber front n ∧ front.length ≤ places + 1 ∧
        n < 2 * Nat.pow 128 places := by
  -- The bound on the number says that the last byte in reach carries a single bit.
  induction places generalizing bs n with
  | zero =>
    have hpow : Nat.pow 128 0 = 1 := rfl
    constructor
    · intro h
      cases bs with
      | nil => cases h
      | cons b bs =>
        rw [readVarintUpTo] at h
        split at h
        · next hb =>
          split at h
          · cases h
          · next hlow =>
            cases h
            exact ⟨[b], rfl, .last hb, Nat.le_refl _, by omega⟩
        · cases h
    · rintro ⟨front, rfl, hspells, hlength, hn⟩
      cases hspells with
      | last hb => simp [readVarintUpTo, hb]; omega
      | more hb hbs => have := hbs.length_pos; rw [List.length_cons] at hlength; omega
  | succ places ih =>
    have hpow : Nat.pow 128 (places + 1) = Nat.pow 128 places * 128 := rfl
    have hpos : 0 < Nat.pow 128 places := Nat.pow_pos (by decide)
    constructor
    · intro h
      cases bs with
      | nil => cases h
      | cons b bs =>
        rw [readVarintUpTo] at h
        split at h
        · next hb =>
          rw [if_neg (by omega)] at h
          cases h
          exact ⟨[b], rfl, .last hb, by simp, by omega⟩
        · next hb =>
          obtain ⟨⟨high, rest'⟩, hhigh, heq⟩ := Option.map_eq_some_iff.1 h
          cases heq
          obtain ⟨front, rfl, hspells, hlength, hlt⟩ := ih.1 hhigh
          exact ⟨b :: front, rfl, .more (Nat.le_of_not_lt hb) hspells,
            Nat.succ_le_succ hlength, by have := b.toNat_lt; omega⟩
    · rintro ⟨front, rfl, hspells, hlength, hn⟩
      cases hspells with
      | last hb =>
        rw [List.cons_append, readVarintUpTo, if_pos hb, if_neg (by omega), List.nil_append]
      | @more b bs high hb hbs =>
        have hhigh : readVarintUpTo (places + 1) (bs ++ rest) = some (high, rest) :=
          ih.2 ⟨bs, rfl, hbs, Nat.le_of_succ_le_succ hlength, by omega⟩
        rw [List.cons_append, readVarintUpTo, if_neg (by omega), hhigh, Option.map_some]

theorem readVarint_eq_some_iff {n : Nat} {bs rest : List UInt8} :
    readVarint bs = some (n, rest) ↔ ∃ front, bs = front ++ rest ∧ IsVarint front n := by
  have hpow : 2 * Nat.pow 128 9 = UInt64.size := rfl
  rw [readVarint, readVarintUpTo_eq_some_iff, hpow]
  constructor
  · rintro ⟨front, hbs, hspells, hlength, hn⟩
    exact ⟨front, hbs, hspells, hlength, hn⟩
  · rintro ⟨front, hbs, hspells, hlength, hn⟩
    exact ⟨front, hbs, hspells, hlength, hn⟩

theorem readVarint_of_isVarint {n : Nat} {bs : List UInt8} (h : IsVarint bs n)
    (rest : List UInt8) : readVarint (bs ++ rest) = some (n, rest) :=
  readVarint_eq_some_iff.2 ⟨bs, rfl, h⟩

theorem isVarint_varint {n : Nat} (h : n < UInt64.size) : IsVarint (varint n) n := by
  have hread := readVarint_varint n [] h
  obtain ⟨front, hfront, hvarint⟩ := readVarint_eq_some_iff.1 hread
  rw [List.append_nil, List.append_nil] at hfront
  rwa [hfront]

theorem readBytes_eq_some_iff {count : Nat} {bs value rest : List UInt8} :
    readBytes count bs = some (value, rest) ↔ bs = value ++ rest ∧ value.length = count := by
  constructor
  · intro h
    rw [readBytes] at h
    split at h
    · next hle =>
      cases h
      exact ⟨(List.take_append_drop count bs).symm, List.length_take_of_le hle⟩
    · cases h
  · rintro ⟨rfl, rfl⟩
    exact readBytes_append value rest

namespace Field

/-! ## 2. Keys -/

def Head.number : Head → Nat
  | varint n => n
  | fixed64 n => n
  | delimited n => n
  | opening n => n
  | closing n => n
  | fixed32 n => n

def Head.layout : Head → Nat
  | varint _ => 0
  | fixed64 _ => 1
  | delimited _ => 2
  | opening _ => 3
  | closing _ => 4
  | fixed32 _ => 5

/-- Bytes are the key of a field with a number and a layout. -/
structure IsKey (bs : List UInt8) (number layout : Nat) : Prop where
  isVarint : IsVarint bs (number * 8 + layout)
  number_pos : 0 < number
  number_le : number ≤ maxNumber

theorem readHead_of_isKey (head : Head) {bs : List UInt8} (h : IsKey bs head.number head.layout)
    (rest : List UInt8) : readHead (bs ++ rest) = some (head, rest) := by
  have hmax : maxNumber = 536870911 := rfl
  have h32 : UInt32.size = 4294967296 := rfl
  have hpos := h.number_pos
  have hle := h.number_le
  have hlayout : head.layout < 6 := by cases head <;> simp [Head.layout]
  have hdiv : (head.number * 8 + head.layout) / 8 = head.number := by omega
  have hmod : (head.number * 8 + head.layout) % 8 = head.layout := by omega
  rw [readHead, readVarint_of_isVarint h.isVarint]
  simp only [Option.bind_eq_bind, Option.bind_some, hdiv, hmod]
  rw [if_neg (by omega), if_neg (by omega)]
  cases head <;> rfl

theorem readHead_eq_some_iff {head : Head} {bs rest : List UInt8} :
    readHead bs = some (head, rest) ↔
      ∃ front, bs = front ++ rest ∧ IsKey front head.number head.layout := by
  constructor
  · intro h
    have h32 : UInt32.size = 4294967296 := rfl
    have hmax : maxNumber = 536870911 := rfl
    simp only [readHead, Option.bind_eq_bind, Option.bind_none, Option.bind_eq_some_iff,
      Prod.exists] at h
    obtain ⟨key, rest', hkey, h⟩ := h
    obtain ⟨front, rfl, hfront⟩ := readVarint_eq_some_iff.1 hkey
    split at h
    · cases h
    split at h
    · cases h
    next hle hpos =>
    have hhead : rest' = rest ∧ key / 8 = head.number ∧ key % 8 = head.layout := by
      split at h
      case h_7 => cases h
      all_goals
        next hmod =>
        cases h
        exact ⟨rfl, rfl, hmod⟩
    obtain ⟨rfl, hnumber, hlayout⟩ := hhead
    have hkey : key = head.number * 8 + head.layout := by omega
    exact ⟨front, rfl, hkey ▸ hfront, by omega, by omega⟩
  · rintro ⟨front, rfl, h⟩
    exact readHead_of_isKey head h rest

/-! ## 3. Fields -/

/-- The bytes of parts that stand one after the other. Each part is a field and how it is spelled. -/
def bytesOf (parts : List (Field × List UInt8)) : List UInt8 := (parts.map (·.2)).flatten

@[simp] theorem bytesOf_nil : bytesOf [] = [] := rfl

@[simp] theorem bytesOf_cons (part : Field × List UInt8) (parts : List (Field × List UInt8)) :
    bytesOf (part :: parts) = part.2 ++ bytesOf parts := rfl

/-- Bytes spell a field where so many levels may still be opened. -/
inductive Spells : Nat → Field → List UInt8 → Prop where
  | varint {depth n v : Nat} {key value : List UInt8} (hkey : IsKey key n 0)
      (hvalue : IsVarint value v) : Spells (depth + 1) (.varint n v) (key ++ value)
  | fixed64 {depth n : Nat} {key value : List UInt8} (hkey : IsKey key n 1)
      (hvalue : value.length = 8) : Spells (depth + 1) (.fixed64 n (ofFixed value)) (key ++ value)
  | delimited {depth n : Nat} {key count bs : List UInt8} (hkey : IsKey key n 2)
      (hcount : IsVarint count bs.length) :
      Spells (depth + 1) (.delimited n bs) (key ++ (count ++ bs))
  | group {depth n : Nat} {opening closing : List UInt8} {parts : List (Field × List UInt8)}
      (hopening : IsKey opening n 3) (hparts : ∀ part ∈ parts, Spells depth part.1 part.2)
      (hclosing : IsKey closing n 4) :
      Spells (depth + 1) (.group n (parts.map (·.1))) (opening ++ (bytesOf parts ++ closing))
  | fixed32 {depth n : Nat} {key value : List UInt8} (hkey : IsKey key n 5)
      (hvalue : value.length = 4) : Spells (depth + 1) (.fixed32 n (ofFixed value)) (key ++ value)

theorem IsKey.length_pos {bs : List UInt8} {number layout : Nat} (h : IsKey bs number layout) :
    0 < bs.length :=
  h.isVarint.spells.length_pos

theorem Spells.length_pos {depth : Nat} {f : Field} {bs : List UInt8} (h : Spells depth f bs) :
    0 < bs.length := by
  cases h with
  | varint hkey | fixed64 hkey | delimited hkey | group hkey | fixed32 hkey =>
    rw [List.length_append]
    exact Nat.add_pos_left hkey.length_pos _

/-- The parts of a group are read up to the closing key of the group, if each of them is read where
it stands. -/
theorem readGroup_of_spells {depth n : Nat} {closing : List UInt8} (hclosing : IsKey closing n 4)
    (parts : List (Field × List UInt8)) (hpos : ∀ part ∈ parts, 0 < part.2.length)
    (hread : ∀ part ∈ parts, ∀ (fuel : Nat) (rest : List UInt8), 2 * part.2.length ≤ fuel →
      readItem fuel depth (part.2 ++ rest) = some (.inl part.1, rest)) :
    ∀ (fuel : Nat) (rest : List UInt8), 2 * (bytesOf parts).length + 2 ≤ fuel →
      readItem.readGroup fuel depth n (bytesOf parts ++ (closing ++ rest)) =
        some (parts.map (·.1), rest) := by
  induction parts with
  | nil =>
    intro fuel rest hfuel
    obtain ⟨fuel, rfl⟩ : ∃ k, fuel = k + 2 := ⟨fuel - 2, by omega⟩
    have hkey := readHead_of_isKey (.closing n) hclosing rest
    rw [bytesOf_nil, List.nil_append, readItem.readGroup, readItem, hkey]
    simp
  | cons part parts ih =>
    intro fuel rest hfuel
    obtain ⟨fuel, rfl⟩ : ∃ k, fuel = k + 1 := ⟨fuel - 1, by omega⟩
    have hpart := hpos part List.mem_cons_self
    rw [bytesOf_cons, List.length_append] at hfuel
    have hfirst := hread part List.mem_cons_self fuel (bytesOf parts ++ (closing ++ rest))
      (by omega)
    have hothers := ih (fun p hp => hpos p (List.mem_cons_of_mem _ hp))
      (fun p hp => hread p (List.mem_cons_of_mem _ hp)) fuel rest (by omega)
    rw [bytesOf_cons, List.append_assoc, readItem.readGroup, hfirst]
    simp [hothers]

/-- A field is read where it stands, whatever follows it. Each step of the reader takes a byte or
more, so twice the bytes are fuel enough. -/
theorem readItem_of_spells {depth : Nat} {f : Field} {bs : List UInt8} (h : Spells depth f bs) :
    ∀ (fuel : Nat) (rest : List UInt8), 2 * bs.length ≤ fuel →
      readItem fuel depth (bs ++ rest) = some (.inl f, rest) := by
  have hfuel {fuel : Nat} {key value : List UInt8} (hkey : 0 < key.length)
      (hle : 2 * (key ++ value).length ≤ fuel) : ∃ k, fuel = k + 1 := by
    rw [List.length_append] at hle
    exact ⟨fuel - 1, by omega⟩
  induction h with
  | @varint depth n v key value hkey hvalue =>
    intro fuel rest hle
    obtain ⟨fuel, rfl⟩ := hfuel hkey.length_pos hle
    rw [List.append_assoc, readItem, readHead_of_isKey (.varint n) hkey]
    simp [readVarint_of_isVarint hvalue]
  | @fixed64 depth n key value hkey hvalue =>
    intro fuel rest hle
    obtain ⟨fuel, rfl⟩ := hfuel hkey.length_pos hle
    rw [List.append_assoc, readItem, readHead_of_isKey (.fixed64 n) hkey]
    simp [readBytes_eq_some_iff.2 ⟨rfl, hvalue⟩]
  | @delimited depth n key count bs hkey hcount =>
    intro fuel rest hle
    obtain ⟨fuel, rfl⟩ := hfuel hkey.length_pos hle
    rw [List.append_assoc, readItem, readHead_of_isKey (.delimited n) hkey]
    simp [readVarint_of_isVarint hcount, readBytes_append]
  | @group depth n opening closing parts hopening hparts hclosing ih =>
    intro fuel rest hle
    obtain ⟨fuel, rfl⟩ := hfuel hopening.length_pos hle
    -- The two keys of the group pay for the steps that it takes itself.
    have hopens := hopening.length_pos
    have hcloses := hclosing.length_pos
    rw [List.length_append, List.length_append] at hle
    have hinside := readGroup_of_spells hclosing parts (fun part hp => (hparts part hp).length_pos)
      ih fuel rest (by omega)
    rw [List.append_assoc, List.append_assoc, readItem,
      readHead_of_isKey (.opening n) hopening]
    simp [hinside]
  | @fixed32 depth n key value hkey hvalue =>
    intro fuel rest hle
    obtain ⟨fuel, rfl⟩ := hfuel hkey.length_pos hle
    rw [List.append_assoc, readItem, readHead_of_isKey (.fixed32 n) hkey]
    simp [readBytes_eq_some_iff.2 ⟨rfl, hvalue⟩]

/-- Bytes spell what may stand next: a field, or the closing key of a group. -/
def SpellsItem (depth : Nat) (bs : List UInt8) : Field ⊕ Nat → Prop
  | .inl f => Spells depth f bs
  | .inr n => IsKey bs n 4

/-- Bytes are these fields, one after the other, where so many levels may still be opened. -/
def IsMessage (depth : Nat) (bs : List UInt8) (fields : List Field) : Prop :=
  ∃ parts, bs = bytesOf parts ∧ parts.map (·.1) = fields ∧
    ∀ part ∈ parts, Spells depth part.1 part.2

theorem IsMessage.nil {depth : Nat} : IsMessage depth [] [] := ⟨[], rfl, rfl, by simp⟩

theorem IsMessage.cons {depth : Nat} {first bs : List UInt8} {f : Field} {fields : List Field}
    (h : IsMessage depth bs fields) (hfirst : Spells depth f first) :
    IsMessage depth (first ++ bs) (f :: fields) := by
  obtain ⟨parts, rfl, rfl, hparts⟩ := h
  exact ⟨(f, first) :: parts, rfl, rfl, List.forall_mem_cons.2 ⟨hfirst, hparts⟩⟩

/-- Bytes spell the fields of a group and its closing key. -/
def SpellsGroup (depth n : Nat) (bs : List UInt8) (fields : List Field) : Prop :=
  ∃ inside closing, bs = inside ++ closing ∧ IsMessage depth inside fields ∧ IsKey closing n 4

theorem SpellsGroup.cons {depth n : Nat} {first bs : List UInt8} {f : Field} {fields : List Field}
    (h : SpellsGroup depth n bs fields) (hfirst : Spells depth f first) :
    SpellsGroup depth n (first ++ bs) (f :: fields) := by
  obtain ⟨inside, closing, rfl, hinside, hclosing⟩ := h
  exact ⟨first ++ inside, closing, (List.append_assoc ..).symm, hinside.cons hfirst, hclosing⟩

/-- What is read after a key was spelled, if the groups are. -/
theorem spellsItem_of_readItem {fuel depth : Nat} {bs rest : List UInt8} {item : Field ⊕ Nat}
    (hgroup : ∀ {depth n : Nat} {bs rest : List UInt8} {fields : List Field},
      readItem.readGroup fuel depth n bs = some (fields, rest) →
        ∃ front, bs = front ++ rest ∧ SpellsGroup depth n front fields)
    (h : readItem (fuel + 1) depth bs = some (item, rest)) :
    ∃ front, bs = front ++ rest ∧ SpellsItem depth front item := by
  simp only [readItem, Option.bind_eq_bind, Option.bind_none, Option.bind_eq_some_iff,
    Prod.exists] at h
  obtain ⟨head, after, hhead, h⟩ := h
  obtain ⟨key, rfl, hkey⟩ := readHead_eq_some_iff.1 hhead
  -- The layout decides what stands behind the key. Where no level is left, only a closing key may
  -- stand.
  cases head with
  | closing n =>
    cases h
    exact ⟨key, rfl, hkey⟩
  | opening n =>
    cases depth with
    | zero => cases h
    | succ depth =>
      obtain ⟨⟨fields, after⟩, hinside, heq⟩ := Option.bind_eq_some_iff.1 h
      cases heq
      obtain ⟨_, rfl, _, closing, rfl, ⟨parts, rfl, rfl, hparts⟩, hclosing⟩ := hgroup hinside
      exact ⟨_, (List.append_assoc ..).symm, .group hkey hparts hclosing⟩
  | varint n =>
    cases depth with
    | zero => cases h
    | succ depth =>
      obtain ⟨⟨v, after⟩, hread, heq⟩ := Option.bind_eq_some_iff.1 h
      cases heq
      obtain ⟨value, rfl, hvalue⟩ := readVarint_eq_some_iff.1 hread
      exact ⟨_, (List.append_assoc ..).symm, .varint hkey hvalue⟩
  | fixed64 n =>
    cases depth with
    | zero => cases h
    | succ depth =>
      obtain ⟨⟨value, after⟩, hread, heq⟩ := Option.bind_eq_some_iff.1 h
      cases heq
      obtain ⟨rfl, hvalue⟩ := readBytes_eq_some_iff.1 hread
      exact ⟨_, (List.append_assoc ..).symm, .fixed64 hkey hvalue⟩
  | delimited n =>
    cases depth with
    | zero => cases h
    | succ depth =>
      obtain ⟨⟨size, after⟩, hsize, h⟩ := Option.bind_eq_some_iff.1 h
      obtain ⟨⟨bs, after⟩, hbytes, heq⟩ := Option.bind_eq_some_iff.1 h
      cases heq
      obtain ⟨count, rfl, hcount⟩ := readVarint_eq_some_iff.1 hsize
      obtain ⟨rfl, rfl⟩ := readBytes_eq_some_iff.1 hbytes
      exact ⟨key ++ (count ++ bs), by simp, .delimited hkey hcount⟩
  | fixed32 n =>
    cases depth with
    | zero => cases h
    | succ depth =>
      obtain ⟨⟨value, after⟩, hread, heq⟩ := Option.bind_eq_some_iff.1 h
      cases heq
      obtain ⟨rfl, hvalue⟩ := readBytes_eq_some_iff.1 hread
      exact ⟨_, (List.append_assoc ..).symm, .fixed32 hkey hvalue⟩

/-- Whatever is read was spelled. -/
theorem spells_of_readItem (fuel : Nat) :
    (∀ {depth : Nat} {bs rest : List UInt8} {item : Field ⊕ Nat},
      readItem fuel depth bs = some (item, rest) →
        ∃ front, bs = front ++ rest ∧ SpellsItem depth front item) ∧
    (∀ {depth n : Nat} {bs rest : List UInt8} {fields : List Field},
      readItem.readGroup fuel depth n bs = some (fields, rest) →
        ∃ front, bs = front ++ rest ∧ SpellsGroup depth n front fields) := by
  -- The two readers call each other with the same fuel, so they are followed together.
  induction fuel with
  | zero => constructor <;> intros <;> contradiction
  | succ fuel ih =>
    refine ⟨spellsItem_of_readItem ih.2, ?_⟩
    intro depth n bs rest fields h
    simp only [readItem.readGroup, Option.bind_eq_bind, Option.bind_eq_some_iff, Prod.exists] at h
    obtain ⟨item, after, hitem, h⟩ := h
    obtain ⟨front, rfl, hfront⟩ := ih.1 hitem
    cases item with
    | inr m =>
      dsimp only at h
      split at h
      · next hm =>
        cases h
        exact ⟨front, rfl, [], front, rfl, .nil, hm ▸ hfront⟩
      · cases h
    | inl f =>
      obtain ⟨⟨others, rest⟩, hothers, heq⟩ := Option.bind_eq_some_iff.1 h
      cases heq
      obtain ⟨more, rfl, hmore⟩ := ih.2 hothers
      exact ⟨front ++ more, (List.append_assoc ..).symm, hmore.cons hfront⟩

/-- No spelling of a field is the beginning of another one. -/
theorem Spells.unique {depth : Nat} {f g : Field} {bs cs rest more : List UInt8}
    (hf : Spells depth f bs) (hg : Spells depth g cs) (h : bs ++ rest = cs ++ more) :
    f = g ∧ bs = cs := by
  have hreadf := readItem_of_spells hf (2 * bs.length + 2 * cs.length) rest (by omega)
  have hreadg := readItem_of_spells hg (2 * bs.length + 2 * cs.length) more (by omega)
  rw [h, hreadg] at hreadf
  cases hreadf
  exact ⟨rfl, List.append_cancel_right h⟩

/-- No key starts like a gzip member: that byte would be a whole key, and announce a layout that is
not in use. -/
theorem IsKey.append_ne_cons {key rest bs : List UInt8} {n layout : Nat} (h : IsKey key n layout)
    (hl : layout < 6) : key ++ rest ≠ 0x1F :: bs := by
  intro heq
  have hspells := h.isVarint.spells
  generalize hv : n * 8 + layout = v at hspells
  cases hspells with
  | last hb =>
    obtain ⟨rfl, -⟩ := List.cons.inj heq
    have hbyte : (0x1F : UInt8).toNat = 31 := rfl
    omega
  | more hb hbs =>
    obtain ⟨rfl, -⟩ := List.cons.inj heq
    exact absurd hb (by decide)

theorem Spells.ne_cons {depth : Nat} {f : Field} {front rest bs : List UInt8}
    (h : Spells depth f front) : front ++ rest ≠ 0x1F :: bs := by
  cases h with
  | varint hkey | fixed64 hkey | delimited hkey | group hkey | fixed32 hkey =>
    rw [List.append_assoc]
    exact hkey.append_ne_cons (by decide)

/-! ## 4. Messages -/

theorem readFields_of_spells {depth : Nat} {parts : List (Field × List UInt8)}
    (hparts : ∀ part ∈ parts, Spells depth part.1 part.2) :
    ∀ fuel, (bytesOf parts).length ≤ fuel →
      readFields fuel depth (bytesOf parts) = some (parts.map (·.1)) := by
  induction parts with
  | nil => intro fuel _; rw [bytesOf_nil, readFields]; rfl
  | cons part parts ih =>
    intro fuel hfuel
    obtain ⟨hfirst, hothers⟩ := List.forall_mem_cons.1 hparts
    have hpos := hfirst.length_pos
    obtain ⟨b, bs, hbs⟩ := List.exists_cons_of_length_pos hpos
    rw [bytesOf_cons, List.length_append] at hfuel
    obtain ⟨fuel, rfl⟩ : ∃ k, fuel = k + 1 := ⟨fuel - 1, by omega⟩
    have hitem := readItem_of_spells hfirst (2 * (bs ++ bytesOf parts).length + 4) (bytesOf parts)
      (by rw [hbs, List.length_cons, List.length_append]; omega)
    rw [hbs, List.cons_append] at hitem
    rw [bytesOf_cons, hbs, List.cons_append, readFields, hitem]
    simp [ih hothers fuel (by omega)]

theorem isMessage_of_readFields {depth : Nat} :
    ∀ {fuel : Nat} {bs : List UInt8} {fields : List Field},
      readFields fuel depth bs = some fields → IsMessage depth bs fields := by
  intro fuel
  induction fuel with
  | zero =>
    intro bs fields h
    cases bs with
    | nil => cases h; exact .nil
    | cons b bs => cases h
  | succ fuel ih =>
    intro bs fields h
    cases bs with
    | nil => cases h; exact .nil
    | cons b bs =>
      rw [readFields] at h
      obtain ⟨⟨item, rest⟩, hitem, h⟩ := Option.bind_eq_some_iff.1 h
      obtain ⟨front, hfront, hspells⟩ := (spells_of_readItem _).1 hitem
      cases item with
      | inr n => cases h
      | inl f =>
        obtain ⟨others, hothers, heq⟩ := Option.bind_eq_some_iff.1 h
        cases heq
        rw [hfront]
        exact (ih hothers).cons hspells

/-- **The reader accepts the messages of the grammar and nothing else.** -/
theorem readAll_eq_some_iff {level : Nat} {bs : List UInt8} {fields : List Field} :
    readAll level bs = some fields ↔ IsMessage (maxDepth - level) bs fields := by
  constructor
  · exact isMessage_of_readFields
  · rintro ⟨parts, rfl, rfl, hparts⟩
    exact readFields_of_spells hparts _ (Nat.le_refl _)

/-- If a message is the beginning of another one, then its fields are the first ones of the other,
spelled in the same way. -/
theorem isPrefix_of_isPrefix_bytesOf {depth : Nat} {first parts : List (Field × List UInt8)}
    (hfirst : ∀ part ∈ first, Spells depth part.1 part.2)
    (hparts : ∀ part ∈ parts, Spells depth part.1 part.2)
    (h : bytesOf first <+: bytesOf parts) : first <+: parts := by
  induction first generalizing parts with
  | nil => exact List.nil_prefix
  | cons part first ih =>
    obtain ⟨hpart, hfirst⟩ := List.forall_mem_cons.1 hfirst
    obtain ⟨rest, hrest⟩ := h
    rw [bytesOf_cons, List.append_assoc] at hrest
    cases parts with
    | nil =>
      have hpos := hpart.length_pos
      have hlength := congrArg List.length hrest
      rw [List.length_append, bytesOf_nil, List.length_nil] at hlength
      omega
    | cons other parts =>
      obtain ⟨hother, hothers⟩ := List.forall_mem_cons.1 hparts
      rw [bytesOf_cons] at hrest
      obtain ⟨hfield, hbytes⟩ := hpart.unique hother hrest
      obtain rfl : part = other := Prod.ext hfield hbytes
      have hmore := List.append_cancel_left hrest
      exact (List.prefix_cons_inj part).2 (ih hfirst hothers ⟨rest, hmore⟩)

end Field

end Uplink.Wire
