import Uplink.Proofs.Wire.Spelling

/-!
# Messages read back

A message that is written field by field is read as the same fields, whatever is nested in it, as
long as its numbers fit the wire and its groups are not nested too deeply.
-/

namespace Uplink.Wire

/-! ## 1. Lengths -/

theorem varintUpTo_ne_nil (places n : Nat) : varintUpTo (places + 1) n ≠ [] := by
  rw [varintUpTo]
  split <;> exact List.cons_ne_nil _ _

theorem length_varintUpTo_le (places n : Nat) : (varintUpTo places n).length ≤ places := by
  induction places generalizing n with
  | zero => exact Nat.le_refl 0
  | succ places ih =>
    rw [varintUpTo]
    split
    · exact Nat.succ_le_succ (Nat.zero_le _)
    · exact Nat.succ_le_succ (ih _)

theorem length_varint_le (n : Nat) : (varint n).length ≤ 10 := length_varintUpTo_le 10 n

theorem length_varint_pos (n : Nat) : 0 < (varint n).length :=
  List.length_pos_iff.mpr (varintUpTo_ne_nil 9 n)

namespace Field

/-- A group is written as its fields between two keys. -/
theorem write_group (n : Nat) (fields : List Field) :
    write (.group n fields) = key n 3 ++ writeAll fields ++ key n 4 := by
  rw [write, writeAll]
  simp

@[simp] theorem writeAll_nil : writeAll [] = [] := rfl

@[simp] theorem writeAll_cons (f : Field) (fields : List Field) :
    writeAll (f :: fields) = write f ++ writeAll fields := by
  rw [writeAll, writeAll, List.map_cons, List.flatten_cons]

theorem length_write_le {f : Field} {fields : List Field} (h : f ∈ fields) :
    (write f).length ≤ (writeAll fields).length :=
  (List.sublist_flatten_of_mem (List.mem_map_of_mem h)).length_le

theorem length_le_write_delimited (n : Nat) (bs : List UInt8) :
    bs.length ≤ (write (.delimited n bs)).length := by
  rw [write, List.length_append, List.length_append]
  omega

/-! ## 2. Fields that the wire can carry -/

/-- A field that can be carried where so many levels may still be opened. -/
inductive Sound : Nat → Field → Prop where
  | varint {depth n v : Nat} (hn : 0 < n ∧ n ≤ maxNumber) (hv : v < UInt64.size) :
      Sound (depth + 1) (.varint n v)
  | fixed64 {depth n v : Nat} (hn : 0 < n ∧ n ≤ maxNumber) (hv : v < UInt64.size) :
      Sound (depth + 1) (.fixed64 n v)
  | delimited {depth n : Nat} {bs : List UInt8} (hn : 0 < n ∧ n ≤ maxNumber)
      (hbs : bs.length < UInt64.size) : Sound (depth + 1) (.delimited n bs)
  | group {depth n : Nat} {fields : List Field} (hn : 0 < n ∧ n ≤ maxNumber)
      (hfields : ∀ f ∈ fields, Sound depth f) : Sound (depth + 1) (.group n fields)
  | fixed32 {depth n v : Nat} (hn : 0 < n ∧ n ≤ maxNumber) (hv : v < UInt32.size) :
      Sound (depth + 1) (.fixed32 n v)

/-- A key starts with a byte that is not the first one of a gzip member: that byte would announce
a layout that is not in use. -/
theorem key_eq_cons (n layout : Nat) (hl : layout < 6) :
    ∃ b bs, key n layout = b :: bs ∧ b ≠ 0x1F := by
  have hne : ∀ m, m % 256 % 8 ≠ 7 ∨ 128 ≤ m % 256 → UInt8.ofNat m ≠ 0x1F := by
    intro m hm h
    have hm' : m % 256 = 31 := congrArg UInt8.toNat h
    omega
  rw [key, Wire.varint, varintUpTo]
  split
  · exact ⟨_, _, rfl, hne _ (by omega)⟩
  · exact ⟨_, _, rfl, hne _ (by omega)⟩

/-- No message starts like a gzip member. -/
theorem writeAll_ne_cons (fields : List Field) (bs : List UInt8) :
    writeAll fields ≠ 0x1F :: bs := by
  cases fields with
  | nil => exact List.cons_ne_nil _ _ ∘ Eq.symm
  | cons f fields =>
    obtain ⟨layout, hl, after, hwrite⟩ :
        ∃ layout, layout < 6 ∧ ∃ after, write f = key f.number layout ++ after := by
      cases f with
      | varint n v => exact ⟨0, by decide, _, write.eq_1 ..⟩
      | fixed64 n v => exact ⟨1, by decide, _, write.eq_2 ..⟩
      | delimited n v => exact ⟨2, by decide, _, by rw [write, List.append_assoc]; rfl⟩
      | group n fields => exact ⟨3, by decide, _, by rw [write_group, List.append_assoc]; rfl⟩
      | fixed32 n v => exact ⟨5, by decide, _, by rw [write]; rfl⟩
    obtain ⟨b, key, hkey, hb⟩ := key_eq_cons f.number layout hl
    rw [writeAll_cons, hwrite, hkey]
    exact fun h => hb (List.cons.inj h).1

/-! ## 3. Reading undoes writing -/

theorem isKey_key {n layout : Nat} (hn : 0 < n ∧ n ≤ maxNumber) (hl : layout < 8) :
    IsKey (key n layout) n layout := by
  have hmax : maxNumber = 536870911 := rfl
  have h64 : UInt64.size = 18446744073709551616 := rfl
  exact ⟨isVarint_varint (by omega), hn.1, hn.2⟩

/-- Fields with the bytes that are written for them. -/
def written (fields : List Field) : List (Field × List UInt8) := fields.map fun f => (f, write f)

@[simp] theorem map_fst_written (fields : List Field) : (written fields).map (·.1) = fields := by
  simp [written, Function.comp_def]

@[simp] theorem bytesOf_written (fields : List Field) :
    bytesOf (written fields) = writeAll fields := by
  simp [written, bytesOf, writeAll, Function.comp_def]

theorem forall_mem_written {fields : List Field} {P : Field × List UInt8 → Prop} :
    (∀ part ∈ written fields, P part) ↔ ∀ f ∈ fields, P (f, write f) := by
  simp [written]

/-- What is written for a field spells it. -/
theorem spells_write {depth : Nat} {f : Field} (hf : Sound depth f) : Spells depth f (write f) := by
  induction hf with
  | varint hn hv =>
    rw [write]
    exact .varint (isKey_key hn (by decide)) (isVarint_varint hv)
  | @fixed64 depth n v hn hv =>
    have h : Spells (depth + 1) _ _ :=
      .fixed64 (isKey_key hn (by decide)) (length_fixed 8 v)
    rwa [ofFixed_fixed 8 v hv, ← write] at h
  | delimited hn hbs =>
    rw [write, List.append_assoc]
    exact .delimited (isKey_key hn (by decide)) (isVarint_varint hbs)
  | @group depth n fields hn hfields ih =>
    have h := Spells.group (isKey_key hn (by decide)) (forall_mem_written.2 ih)
      (isKey_key hn (by decide))
    rwa [map_fst_written, bytesOf_written, ← List.append_assoc, ← write_group] at h
  | @fixed32 depth n v hn hv =>
    have h : Spells (depth + 1) _ _ :=
      .fixed32 (isKey_key hn (by decide)) (length_fixed 4 v)
    rwa [ofFixed_fixed 4 v hv, ← write] at h

theorem isMessage_writeAll {depth : Nat} {fields : List Field}
    (hfields : ∀ f ∈ fields, Sound depth f) : IsMessage depth (writeAll fields) fields :=
  ⟨written fields, (bytesOf_written fields).symm, map_fst_written fields,
    forall_mem_written.2 fun f hf => spells_write (hfields f hf)⟩

theorem readAll_writeAll (level : Nat) (fields : List Field)
    (hfields : ∀ f ∈ fields, Sound (maxDepth - level) f) :
    readAll level (writeAll fields) = some fields :=
  readAll_eq_some_iff.2 (isMessage_writeAll hfields)

/-! ## 4. How much a message carries -/

/-- How many bytes a field carries for others to read. -/
def load : Field → Nat
  | delimited _ bs => bs.length
  | _ => 0

@[simp] theorem load_delimited (n : Nat) (bs : List UInt8) :
    (delimited n bs).load = bs.length := rfl

/-- How many bytes fields carry together. -/
def loads : List Field → Nat
  | [] => 0
  | f :: fields => f.load + loads fields

@[simp] theorem loads_nil : loads [] = 0 := rfl

@[simp] theorem loads_cons (f : Field) (fields : List Field) :
    loads (f :: fields) = f.load + loads fields := rfl

theorem load_le_of_spells {depth : Nat} {f : Field} {bs : List UInt8} (h : Spells depth f bs) :
    f.load ≤ bs.length := by
  cases h with
  | delimited => simp only [load, List.length_append]; omega
  | _ => exact Nat.zero_le _

theorem loads_le_of_isMessage {depth : Nat} {bs : List UInt8} {fields : List Field}
    (h : IsMessage depth bs fields) : loads fields ≤ bs.length := by
  obtain ⟨parts, rfl, rfl, hparts⟩ := h
  induction parts with
  | nil => exact Nat.le_refl 0
  | cons part parts ih =>
    obtain ⟨hpart, hparts⟩ := List.forall_mem_cons.1 hparts
    have hfirst := load_le_of_spells hpart
    have hothers := ih hparts
    rw [List.map_cons, loads_cons, bytesOf_cons, List.length_append]
    omega

theorem load_le_loads {f : Field} {fields : List Field} (h : f ∈ fields) :
    f.load ≤ loads fields := by
  induction fields with
  | nil => cases h
  | cons g fields ih =>
    rw [loads_cons]
    rcases List.mem_cons.1 h with rfl | h
    · exact Nat.le_add_right ..
    · exact Nat.le_trans (ih h) (Nat.le_add_left ..)

/-- Apart from what it carries, a field takes a key and a number. -/
theorem length_write_le_load {f : Field} (h : ∀ n inside, f ≠ .group n inside) :
    (write f).length ≤ f.load + 20 := by
  have hkey (n layout : Nat) : (key n layout).length ≤ 10 := length_varint_le _
  cases f with
  | varint n v =>
    have := hkey n 0
    have := length_varint_le v
    simp only [write, load, List.length_append]
    omega
  | fixed64 n v =>
    have := hkey n 1
    simp only [write, load, List.length_append, length_fixed]
    omega
  | delimited n bs =>
    have := hkey n 2
    have := length_varint_le bs.length
    simp only [write, load, List.length_append]
    omega
  | group n inside => exact absurd rfl (h n inside)
  | fixed32 n v =>
    have := hkey n 5
    simp only [write, load, List.length_append, length_fixed]
    omega

theorem length_writeAll_le {fields : List Field} {limit : Nat}
    (h : ∀ f ∈ fields, (write f).length ≤ limit) :
    (writeAll fields).length ≤ limit * fields.length := by
  induction fields with
  | nil => exact Nat.zero_le _
  | cons f fields ih =>
    obtain ⟨hf, hfields⟩ := List.forall_mem_cons.1 h
    have hothers := ih hfields
    rw [writeAll_cons, List.length_append, List.length_cons, Nat.mul_succ]
    omega

end Field

end Uplink.Wire
