import Uplink.Proofs.Payload.RoundTrip

/-!
# Messages cut short

A binary message of which the end is missing is refused, unless it was cut between two of its
fields. Then it is read as the payload of the fields before the cut, each with the value that it
has in the whole message.
-/

namespace Uplink

open Number Time Wire

/-! ## 1. The first fields of a payload -/

def SortedMap.take {α : Type} (m : SortedMap α) (k : Nat) : SortedMap α :=
  ⟨m.entries.take k, List.Pairwise.sublist (List.take_sublist k m.entries) m.ascending⟩

/-- The payload of the first `k` fields, which are in this order: the time, the position, the
metrics by their names, the body. -/
def Payload.front (p : Payload) (k : Nat) : Payload where
  timestamp := if 0 < k then p.timestamp else none
  position := if p.timestamp.toList.length < k then p.position else none
  metrics := p.metrics.take (k - (p.timestamp.toList.length + p.position.toList.length))
  body :=
    if p.timestamp.toList.length + p.position.toList.length + p.metrics.entries.length < k then
      p.body
    else none

namespace Payload

theorem carried_front (p : Payload) (k : Nat) : (p.front k).carried = p.carried.front k := by
  simp only [carried, front, Option.toList_map, List.length_map, apply_ite (Option.map _),
    Option.map_none]

theorem HasMillis.front {p : Payload} (h : p.HasMillis) (k : Nat) : (p.front k).HasMillis := by
  constructor
  · intro i hi
    apply h.timestamp i
    simp only [Payload.front] at hi
    split at hi
    · exact hi
    · cases hi
  · intro pos hpos
    apply h.position pos
    simp only [Payload.front] at hpos
    split at hpos
    · exact hpos
    · cases hpos

namespace Binary

theorem length_optional {α : Type} (field : α → Field) (value : Option α) :
    (optional field value).length = value.toList.length := by
  rw [optional, Option.toList_map, List.length_map]

theorem take_optional {α : Type} (field : α → Field) (value : Option α) (k : Nat) :
    (optional field value).take k = optional field (if 0 < k then value else none) := by
  cases k with
  | zero => rfl
  | succ k => cases value <;> simp [optional]

/-- The first fields of a payload are the fields of its front. -/
theorem fields_front (p : Payload) (k : Nat) : fields (p.front k) = (fields p).take k := by
  have hposition : 0 < k - p.timestamp.toList.length ↔ p.timestamp.toList.length < k := by omega
  have hbody : 0 < k - (p.timestamp.toList.length + p.position.toList.length +
      p.metrics.entries.length) ↔
      p.timestamp.toList.length + p.position.toList.length + p.metrics.entries.length < k := by
    omega
  simp only [fields, front, SortedMap.take, List.take_append, List.length_append, List.length_map,
    length_optional, take_optional, List.map_take, hposition, hbody]

theorem Fits.front {p : Payload} (h : Fits p) (k : Nat) : Fits (p.front k) := by
  intro n bs hmem
  rw [fields_front] at hmem
  exact h n bs (List.mem_of_mem_take hmem)

/-! ## 2. Where a message may be cut -/

theorem encode_front (p : Payload) (k : Nat) :
    encode (p.front k) = Field.writeAll ((fields p).take k) := by
  rw [encode, fields_front]

theorem decode_encode_front {p q : Payload} (h : Fits p) (hq : decode (encode p) = .ok q)
    (k : Nat) : decode (encode (p.front k)) = .ok (q.front k) := by
  have hp := hasMillis_of_decode_encode h hq
  cases hq.symm.trans (decode_encode_of_fits hp h)
  rw [← carried_front]
  exact decode_encode_of_fits (hp.front k) (h.front k)

theorem decode_encode_ne_binary {p : Payload} (h : Fits p) :
    decode (encode p) ≠ .error .binary := by
  obtain ⟨ms, hread, -⟩ := read_encode h
  rw [decode, hread]
  show (RawPayload.finish _).mapError CodecError.malformed ≠ .error .binary
  generalize RawPayload.finish _ = result
  intro heq
  cases result <;> cases heq

/-- What begins a message and can be read as fields are first fields of the message. -/
theorem exists_eq_encode_front {p : Payload} (h : Fits p) {bs : List UInt8} {found : List Field}
    (hbs : bs <+: encode p) (hread : Field.readAll 0 bs = some found) :
    ∃ k, bs = encode (p.front k) := by
  obtain ⟨parts, rfl, -, hparts⟩ := Field.readAll_eq_some_iff.1 hread
  have hwritten : ∀ part ∈ Field.written (fields p), Field.Spells (maxDepth - 0) part.1 part.2 :=
    Field.forall_mem_written.2 fun f hf => Field.spells_write (sound_fields _ h f hf)
  rw [encode, ← Field.bytesOf_written] at hbs
  have hfirst := Field.isPrefix_of_isPrefix_bytesOf hparts hwritten hbs
  refine ⟨parts.length, ?_⟩
  calc Field.bytesOf parts
    _ = Field.bytesOf ((Field.written (fields p)).take parts.length) :=
      congrArg Field.bytesOf (List.prefix_iff_eq_take.1 hfirst)
    _ = Field.bytesOf (Field.written ((fields p).take parts.length)) := by
      rw [Field.written, Field.written, List.map_take]
    _ = encode (p.front parts.length) := by rw [Field.bytesOf_written, encode_front]

/-- **A message cut short is refused, unless the cut is between two fields.** Then the fields before
the cut are read, with the values that they have in the whole message. -/
theorem decode_of_isPrefix (p : Payload) (h : (encode p).length < UInt64.size) {bs : List UInt8}
    (hbs : bs <+: encode p) :
    (∃ k, bs = Field.writeAll ((fields p).take k) ∧ decode bs ≠ .error .binary ∧
      ∀ q, decode (encode p) = .ok q → decode bs = .ok (q.front k)) ∨
    ((∀ k, bs ≠ Field.writeAll ((fields p).take k)) ∧ decode bs = .error .binary) := by
  have hfits := fits_of_length h
  simp only [← encode_front]
  cases hread : Field.readAll 0 bs with
  | some found =>
    obtain ⟨k, rfl⟩ := exists_eq_encode_front hfits hbs hread
    exact .inl ⟨k, rfl, decode_encode_ne_binary (hfits.front k),
      fun q hq => decode_encode_front hfits hq k⟩
  | none =>
    have hdecode : decode bs = .error .binary := by
      rw [decode, RawPayload.read, hread]
      rfl
    refine .inr ⟨?_, hdecode⟩
    rintro k rfl
    exact decode_encode_ne_binary (hfits.front k) hdecode

/-- A payload of a time, a metric and a body. -/
def alarm : Payload where
  timestamp := Instant.ofMillis? 1000
  metrics := SortedMap.ofList [("on", .bool true)]
  body := some [0x2A]

def alarmBytes : List UInt8 :=
  [0x08, 0xE8, 0x07,
    0xC2, 0xB8, 0x02, 0x08, 0x0A, 0x02, 0x6F, 0x6E, 0x10, 0x04, 0x38, 0x01,
    0xCA, 0xB8, 0x02, 0x01, 0x2A]

theorem fields_alarm : fields alarm =
    [.varint 1 1000, .delimited 5000 [0x0A, 0x02, 0x6F, 0x6E, 0x10, 0x04, 0x38, 0x01],
      .delimited 5001 [0x2A]] := by
  have hmetric : metricFields "on" (.bool true) =
      [.delimited 1 [0x6F, 0x6E], .varint 2 4, .varint 7 1] := rfl
  have hentries : alarm.metrics.entries = [("on", .bool true)] := rfl
  rw [fields, hentries]
  simp only [List.map, hmetric, Field.writeAll, Field.write]
  rfl

/-- There are four places where the message may be cut. -/
theorem writeAll_take_alarm (k : Nat) : Field.writeAll ((fields alarm).take k) =
    alarmBytes.take ([0, 3, 15].getD k 20) := by
  rw [fields_alarm]
  rcases k with _ | _ | _ | k
  · rfl
  all_goals
    simp only [List.take, List.take_nil, Field.writeAll, List.map, Field.write]
    rfl

theorem decode_of_isPrefix_alarm :
    (encode alarm).length < UInt64.size ∧ decode (encode alarm) = .ok alarm ∧
      alarmBytes.take 10 <+: encode alarm ∧ decode (alarmBytes.take 10) = .error .binary ∧
      alarmBytes.take 15 <+: encode alarm ∧ decode (alarmBytes.take 15) = .ok (alarm.front 2) := by
  have hencode : encode alarm = alarmBytes := writeAll_take_alarm 3
  have hsize : (encode alarm).length < UInt64.size := by
    rw [hencode]
    decide
  have hwhole : decode (encode alarm) = .ok alarm := by
    rw [hencode]
    rfl
  have hfront (n : Nat) : alarmBytes.take n <+: encode alarm := hencode ▸ List.take_prefix ..
  refine ⟨hsize, hwhole, hfront 10, ?_, hfront 15, ?_⟩
  · rcases decode_of_isPrefix alarm hsize (hfront 10) with ⟨k, hk, -⟩ | ⟨-, herror⟩
    · -- No field ends after ten bytes.
      rw [writeAll_take_alarm] at hk
      rcases k with _ | _ | _ | k <;> cases hk
    · exact herror
  · rcases decode_of_isPrefix alarm hsize (hfront 15) with ⟨k, hk, -, hread⟩ | ⟨hcut, -⟩
    · rw [writeAll_take_alarm] at hk
      rcases k with _ | _ | _ | k
      · cases hk
      · cases hk
      · exact hread alarm hwhole
      · cases hk
    · exact absurd (writeAll_take_alarm 2).symm (hcut 2)

end Binary

end Payload

end Uplink
