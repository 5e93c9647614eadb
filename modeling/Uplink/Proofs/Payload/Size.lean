import Uplink.Proofs.Gzip.Lossless
import Uplink.Proofs.Payload.RoundTrip

/-!
# How much payloads take

The binary form adds a bounded number of bytes to each name, text and number that it carries, and
storing the result in a gzip member adds little to that.
-/

namespace Uplink

open Number Time Wire

namespace Payload.Binary

/-! ## 1. Parts of a payload -/

theorem length_optional_le {α : Type} (field : α → Field) (value : Option α) :
    (optional field value).length ≤ 1 := by
  cases value <;> simp [optional]

theorem length_positionFields_le (p : Position) :
    (Field.writeAll (positionFields p)).length ≤ 180 := by
  have hcount : (positionFields p).length ≤ 9 := by
    have := length_optional_le (doubleField 3) p.altitude
    have := length_optional_le (doubleField 4) p.precision
    have := length_optional_le (doubleField 5) p.heading
    have := length_optional_le (doubleField 6) p.speed
    have := length_optional_le (fun i => .varint 7 (ofMillis i)) p.timestamp
    have := length_optional_le (fun v => .varint 8 (ofInt v)) p.satellites
    have := length_optional_le (fun v => .varint 9 (ofInt v)) p.status
    simp only [positionFields, List.length_append, List.length_cons]
    omega
  have heach : ∀ f ∈ positionFields p, f.write.length ≤ 20 := by
    intro f hf
    have hplain : (∀ n inside, f ≠ .group n inside) ∧ f.load = 0 := by
      simp only [positionFields, List.mem_append, List.mem_cons, mem_optional] at hf
      rcases hf with ((((((rfl | rfl | ⟨x, _, rfl⟩) | ⟨x, _, rfl⟩) | ⟨x, _, rfl⟩) | ⟨x, _, rfl⟩) |
        ⟨i, _, rfl⟩) | ⟨v, _, rfl⟩) | ⟨v, _, rfl⟩
      all_goals exact ⟨by simp [doubleField], rfl⟩
    have hwrite := Field.length_write_le_load hplain.1
    rwa [hplain.2] at hwrite
  have htotal := Field.length_writeAll_le heach
  omega

theorem length_metricFields_le (name : String) (value : Metric) :
    (Field.writeAll (metricFields name value)).length ≤
      (Utf8.bytes name).length + (valueField value).2.load + 60 := by
  have hfirst := Field.length_write_le_load (f := .delimited 1 (Utf8.bytes name)) (by simp)
  have hsecond := Field.length_write_le_load (f := .varint 2 (valueField value).1.code) (by simp)
  have hthird := Field.length_write_le_load (f := (valueField value).2)
    (by cases value <;> simp [valueField])
  rw [Field.load_delimited] at hfirst
  rw [show Field.load (.varint 2 _) = 0 from rfl] at hsecond
  simp only [metricFields, Field.writeAll_cons, Field.writeAll_nil, List.length_append,
    List.length_nil]
  omega

/-! ## 2. Payloads -/

/-- Neither a metric with its name nor the body takes more than so many bytes. -/
structure Within (limit : Nat) (p : Payload) : Prop where
  metrics : ∀ e ∈ p.metrics.entries, (Utf8.bytes e.1).length + (valueField e.2).2.load ≤ limit
  body : ∀ bs ∈ p.body, bs.length ≤ limit

instance (limit : Nat) (p : Payload) : Decidable (Within limit p) :=
  decidable_of_iff ((∀ e ∈ p.metrics.entries,
      (Utf8.bytes e.1).length + (valueField e.2).2.load ≤ limit) ∧
        ∀ bs ∈ p.body.toList, bs.length ≤ limit)
    ⟨fun h => ⟨h.1, fun bs hbs => h.2 bs (Option.mem_toList.2 hbs)⟩,
      fun h => ⟨h.metrics, fun bs hbs => h.body bs (Option.mem_toList.1 hbs)⟩⟩

theorem length_fields_le (p : Payload) : (fields p).length ≤ p.metrics.entries.length + 3 := by
  have := length_optional_le (fun i => .varint 1 (ofMillis i)) p.timestamp
  have := length_optional_le
    (fun pos => .delimited 2 (Field.writeAll (positionFields pos))) p.position
  have := length_optional_le (Field.delimited 5001) p.body
  simp only [fields, List.length_append, List.length_map]
  omega

theorem length_encode_le {limit : Nat} {p : Payload} (h : Within limit p) :
    (encode p).length ≤ (limit + 200) * (p.metrics.entries.length + 3) := by
  have heach : ∀ f ∈ fields p, (Field.write f).length ≤ limit + 200 := by
    intro f hf
    have hload : (∀ n inside, f ≠ .group n inside) ∧ f.load ≤ limit + 180 := by
      simp only [fields, List.mem_append, List.mem_map, mem_optional] at hf
      rcases hf with ((⟨i, _, rfl⟩ | ⟨pos, _, rfl⟩) | ⟨e, he, rfl⟩) | ⟨bs, hbs, rfl⟩
      · exact ⟨by simp, Nat.zero_le _⟩
      · have := length_positionFields_le pos
        exact ⟨by simp, by rw [Field.load_delimited]; omega⟩
      · have := length_metricFields_le e.1 e.2
        have := h.metrics e he
        exact ⟨by simp, by rw [Field.load_delimited]; omega⟩
      · have := h.body bs hbs
        exact ⟨by simp, by rw [Field.load_delimited]; omega⟩
    have := Field.length_write_le_load hload.1
    omega
  exact Nat.le_trans (Field.length_writeAll_le heach)
    (Nat.mul_le_mul_left _ (length_fields_le p))

end Payload.Binary

/-- A payload with a moderate number of short metrics fits into a message. -/
theorem Options.length_encodePayload_lt {o : Options} (ho : o.encoding = .binary) {limit : Nat}
    {p : Payload} (h : Payload.Binary.Within limit p)
    (hsize : 2 * ((limit + 200) * (p.metrics.entries.length + 3)) + 23 < UInt64.size) :
    (o.encodePayload p).length < UInt64.size := by
  refine Nat.lt_of_le_of_lt ?_ hsize
  have hplain := Payload.Binary.length_encode_le h
  rw [encodePayload, encodePayloadWith, ho]
  split
  · have hpacked := Gzip.length_compress_le (Payload.Binary.encode p)
    exact Nat.le_trans hpacked (by omega)
  · exact Nat.le_trans hplain (by omega)

end Uplink
