import Uplink.Payload.Codec
import Uplink.Proofs.Gzip.Lossless
import Uplink.Proofs.Wire.Message

/-!
# Payloads in the binary form, there and back

A payload that leaves in the binary form arrives as it was, but for what the form does not carry:
times are counted in whole milliseconds, and a position always has its two coordinates. Whether one
side packs what it sends and the other expects it does not matter, since no message starts like a
gzip member.
-/

namespace Uplink

open Number Time Wire

/-! ## 1. What the binary form carries -/

namespace Time.Instant

/-- The milliseconds of an instant are those of an instant. This fails within a leap second after
the last second only. -/
def HasMillis (i : Instant) : Prop := i.seconds + i.nanos / 1000000000 ≤ lastSecond

/-- An instant without what is below a millisecond. Within a leap second, the next second has
begun. -/
def toMillisecond (i : Instant) : Instant :=
  if h : i.seconds + i.nanos / 1000000000 ≤ lastSecond then
    { seconds := i.seconds + i.nanos / 1000000000
      nanos := i.nanos % 1000000000 / 1000000 * 1000000
      firstSecond_le := by have := i.firstSecond_le; omega
      le_lastSecond := h
      nanos_lt := by omega }
  else i

/-- Apart from leap seconds, only what is below a millisecond is lost. -/
theorem toMillisecond_of_lt (i : Instant) (h : i.nanos < 1000000000) :
    i.toMillisecond.seconds = i.seconds ∧ i.toMillisecond.nanos = i.nanos / 1000000 * 1000000 := by
  have hr : i.nanos % 1000000000 = i.nanos := Nat.mod_eq_of_lt h
  have hlast := i.le_lastSecond
  rw [toMillisecond, dif_pos (by omega)]
  exact ⟨by show i.seconds + (i.nanos : Int) / 1000000000 = _; omega, by simp only [hr]⟩

/-- The milliseconds of an instant are a signed number of 64 bits. -/
theorem millis_mem_long (i : Instant) :
    Int64.minValue.toInt ≤ i.millis ∧ i.millis ≤ Int64.maxValue.toInt := by
  have hmin : Int64.minValue.toInt = -9223372036854775808 := by decide
  have hmax : Int64.maxValue.toInt = 9223372036854775807 := by decide
  have hfirst := i.firstSecond_le
  have hlast := i.le_lastSecond
  have hnanos := i.nanos_lt
  unfold firstSecond at hfirst
  unfold lastSecond at hlast
  rw [hmin, hmax, Instant.millis]
  constructor <;> omega

theorem toInt_ofInt_millis (i : Instant) : (Int64.ofInt i.millis).toInt = i.millis := by
  obtain ⟨hmin, hmax⟩ := millis_mem_long i
  have hmaxValue : Int64.maxValue.toInt = 2 ^ 63 - 1 := by decide
  exact Int64.toInt_ofInt_of_le hmin (by omega)

theorem millis_bounds (i : Instant) (h : i.HasMillis) :
    firstSecond ≤ i.millis / 1000 ∧ i.millis / 1000 ≤ lastSecond := by
  have hfirst := i.firstSecond_le
  unfold HasMillis at h
  unfold millis
  constructor <;> omega

theorem ofMillis?_millis (i : Instant) (h : i.HasMillis) :
    ofMillis? i.millis = some i.toMillisecond := by
  have hb := millis_bounds i h
  have hs : i.millis / 1000 = i.seconds + i.nanos / 1000000000 := by unfold millis; omega
  have hn : (i.millis % 1000).toNat * 1000000 = i.nanos % 1000000000 / 1000000 * 1000000 := by
    unfold millis
    omega
  unfold HasMillis at h
  rw [ofMillis?, dif_pos hb, toMillisecond, dif_pos h]
  simp only [hs, hn]

theorem ofMillis?_millis_eq_none (i : Instant) (h : ¬i.HasMillis) : ofMillis? i.millis = none := by
  rw [ofMillis?_eq_none_iff]
  unfold HasMillis at h
  unfold millis
  omega

end Time.Instant

namespace Position

def carried (p : Position) : Position :=
  { p with
    latitude := some (p.latitude.getD .zero)
    longitude := some (p.longitude.getD .zero)
    timestamp := p.timestamp.map Instant.toMillisecond }

end Position

namespace Payload

def carried (p : Payload) : Payload :=
  { p with
    timestamp := p.timestamp.map Instant.toMillisecond
    position := p.position.map Position.carried }

/-- All times of a payload can be counted in milliseconds. -/
structure HasMillis (p : Payload) : Prop where
  timestamp : ∀ i ∈ p.timestamp, i.HasMillis
  position : ∀ pos ∈ p.position, ∀ i ∈ pos.timestamp, i.HasMillis

end Payload

namespace Payload.Binary

/-! ## 2. Numbers -/

theorem toLong_ofLong (v : Int64) : toLong (ofLong v) = v := by
  rw [toLong, ofLong, UInt64.ofNat_toNat, Int64.toInt64_toUInt64]

theorem toInt_ofInt (v : Int32) : toInt (ofInt v) = v := by
  rw [toInt, ofInt, ofLong, UInt32.ofNat_uInt64ToNat]
  apply Int32.toBitVec.inj
  show (v.toInt64.toBitVec).setWidth 32 = v.toBitVec
  rw [Int32.toBitVec_toInt64]
  apply BitVec.eq_of_getLsbD_eq
  intro i hi
  have hi64 : i < 64 := by omega
  simp only [BitVec.getLsbD_setWidth, BitVec.getLsbD_signExtend, hi, hi64, decide_true,
    Bool.true_and, if_true]

theorem ofLong_lt (v : Int64) : ofLong v < UInt64.size := v.toUInt64.toNat_lt

theorem toDouble_bits (x : Double) : toDouble x.bits.toNat = x := by
  rw [toDouble, UInt64.ofNat_toNat]

theorem toSingle_bits (x : Single) : toSingle x.bits.toNat = x := by
  rw [toSingle, UInt32.ofNat_toNat]

theorem toInt_code (k : MetricKind) : (toInt k.code).toInt = k.code := by
  cases k <;> decide

theorem instant_ofMillis (i : Instant) (h : i.HasMillis) :
    instant (toLong (ofMillis i)) = .ok i.toMillisecond := by
  rw [instant, ofMillis, toLong_ofLong, i.toInt_ofInt_millis, i.ofMillis?_millis h]

theorem hasMillis_of_instant {i j : Instant} (h : instant (toLong (ofMillis i)) = .ok j) :
    i.HasMillis := by
  rw [instant, ofMillis, toLong_ofLong, i.toInt_ofInt_millis] at h
  by_cases hmillis : i.HasMillis
  · exact hmillis
  · rw [i.ofMillis?_millis_eq_none hmillis] at h
    cases h

/-! ## 3. Fields read one after the other -/

theorem foldlM_append_eq {α β : Type} {f : β → α → Option β} {first more : List α} {a b c : β}
    (hfirst : first.foldlM f a = some b) (hmore : more.foldlM f b = some c) :
    (first ++ more).foldlM f a = some c := by
  rw [List.foldlM_append, hfirst]
  exact hmore

theorem foldlM_cons_eq_some_iff {α β : Type} {f : β → α → Option β} {first : α} {more : List α}
    {a c : β} : (first :: more).foldlM f a = some c ↔
      ∃ b, f a first = some b ∧ more.foldlM f b = some c := by
  rw [List.foldlM_cons]
  exact Option.bind_eq_some_iff

/-- A field that is there if its value is puts the value into its place. -/
theorem foldlM_optional {α β : Type} {add : β → Field → Option β} (field : α → Field)
    (place : Option α → β) (hadd : ∀ a, add (place none) (field a) = some (place (some a)))
    (value : Option α) : (optional field value).foldlM add (place none) = some (place value) := by
  cases value with
  | none => rfl
  | some a => simp [optional, hadd]

/-- A metric is the value in the slot of its kind. -/
theorem finish_of_value? {m : RawMetric} (kind : MetricKind) {value : Metric}
    (hkind : m.kind = toInt kind.code) (hvalue : m.value? kind = some value) :
    m.finish = .ok (m.name, value) := by
  rw [RawMetric.finish, hkind, toInt_code, MetricKind.ofCode?_code]
  simp only [hvalue]

theorem read_metricFields (name : String) (value : Metric) :
    ∃ m, (metricFields name value).foldlM RawMetric.add {} = some m ∧
      m.finish = .ok (name, value) := by
  let named : RawMetric := { name, kind := toInt (valueField value).1.code }
  have hname : RawMetric.add {} (.delimited 1 (Utf8.bytes name)) = some { name } := by
    rw [RawMetric.add, Utf8.ofBytes?_bytes, Option.map_some]
  have hkind : RawMetric.add { name } (.varint 2 (valueField value).1.code) = some named := rfl
  have hread : ∀ m, named.add (valueField value).2 = some m →
      (metricFields name value).foldlM RawMetric.add {} = some m := by
    intro m hm
    simp only [metricFields, List.foldlM_cons, List.foldlM_nil, hname, hkind, hm,
      Option.bind_eq_bind, Option.bind_some, Option.pure_def]
  -- Name and kind are read, and the value goes to the slot of its kind.
  cases value with
  | bool b =>
    exact ⟨{ named with bool := some b }, hread _ (by cases b <;> rfl),
      finish_of_value? .bool rfl rfl⟩
  | long v =>
    exact ⟨{ named with long := some v },
      hread _ (by simp [valueField, RawMetric.add, toLong_ofLong]),
      finish_of_value? .int64 rfl rfl⟩
  | int v =>
    exact ⟨{ named with int := some v }, hread _ (by simp [valueField, RawMetric.add, toInt_ofInt]),
      finish_of_value? .int32 rfl rfl⟩
  | double x =>
    exact ⟨{ named with double := some x },
      hread _ (by simp [valueField, RawMetric.add, toDouble_bits]),
      finish_of_value? .double rfl rfl⟩
  | float x =>
    exact ⟨{ named with float := some x },
      hread _ (by simp [valueField, RawMetric.add, toSingle_bits]),
      finish_of_value? .float rfl rfl⟩
  | string s =>
    exact ⟨{ named with string := some s }, hread _ (by simp [valueField, RawMetric.add]),
      finish_of_value? .string rfl rfl⟩
  | bytes bs =>
    exact ⟨{ named with bytes := some bs }, hread _ rfl,
      finish_of_value? .bytes rfl rfl⟩

/-- A position as it is read from its fields. -/
def RawPosition.of (p : Position) : RawPosition where
  latitude := p.latitude.getD .zero
  longitude := p.longitude.getD .zero
  altitude := p.altitude
  precision := p.precision
  heading := p.heading
  speed := p.speed
  timestamp := p.timestamp.map fun i => toLong (ofMillis i)
  satellites := p.satellites
  status := p.status

/-- The fields of a position are read as that position. Each of the seven parts that may be missing
leaves the parts before it as they are. -/
theorem read_positionFields (p : Position) :
    (positionFields p).foldlM RawPosition.add {} = some (RawPosition.of p) := by
  let p0 : RawPosition :=
    { latitude := p.latitude.getD .zero, longitude := p.longitude.getD .zero }
  have h0 : [doubleField 1 (p.latitude.getD .zero),
      doubleField 2 (p.longitude.getD .zero)].foldlM RawPosition.add {} = some p0 := by
    simp [doubleField, RawPosition.add, toDouble_bits, p0]
  have h1 := foldlM_append_eq h0 <| foldlM_optional (doubleField 3)
    (fun v => { p0 with altitude := v })
    (fun x => by simp [doubleField, RawPosition.add, toDouble_bits]) p.altitude
  have h2 := foldlM_append_eq h1 <| foldlM_optional (doubleField 4)
    (fun v => { p0 with altitude := p.altitude, precision := v })
    (fun x => by simp [doubleField, RawPosition.add, toDouble_bits]) p.precision
  have h3 := foldlM_append_eq h2 <| foldlM_optional (doubleField 5)
    (fun v => { p0 with altitude := p.altitude, precision := p.precision, heading := v })
    (fun x => by simp [doubleField, RawPosition.add, toDouble_bits]) p.heading
  have h4 := foldlM_append_eq h3 <| foldlM_optional (doubleField 6)
    (fun v =>
      { RawPosition.of p with speed := v, timestamp := none, satellites := none, status := none })
    (fun x => by simp [doubleField, RawPosition.add, toDouble_bits]) p.speed
  have h5 := foldlM_append_eq h4 <| foldlM_optional (fun i => .varint 7 (ofMillis i))
    (fun v => { RawPosition.of p with
      timestamp := v.map fun i => toLong (ofMillis i), satellites := none, status := none })
    (fun i => by simp [RawPosition.add]) p.timestamp
  have h6 := foldlM_append_eq h5 <| foldlM_optional (fun v => .varint 8 (ofInt v))
    (fun v => { RawPosition.of p with satellites := v, status := none })
    (fun v => by simp [RawPosition.add, toInt_ofInt]) p.satellites
  exact foldlM_append_eq h6 <| foldlM_optional (fun v => .varint 9 (ofInt v))
    (fun v => { RawPosition.of p with status := v })
    (fun v => by simp [RawPosition.add, toInt_ofInt]) p.status

/-! ## 4. All fields fit the wire -/

theorem mem_optional {α : Type} {field : α → Field} {value : Option α} {f : Field} :
    f ∈ optional field value ↔ ∃ a ∈ value, field a = f := by
  cases value <;> simp [optional, eq_comm]

theorem sound_doubleField {depth n : Nat} (hn : 0 < n ∧ n ≤ 9) (x : Double) :
    Field.Sound (depth + 1) (doubleField n x) :=
  .fixed64 ⟨hn.1, Nat.le_trans hn.2 (by decide)⟩ x.bits.toNat_lt

theorem sound_positionFields (depth : Nat) (p : Position) :
    ∀ f ∈ positionFields p, Field.Sound (depth + 1) f := by
  intro f hf
  simp only [positionFields, List.mem_append, List.mem_cons, mem_optional] at hf
  rcases hf with ((((((rfl | rfl | ⟨x, _, rfl⟩) | ⟨x, _, rfl⟩) | ⟨x, _, rfl⟩) | ⟨x, _, rfl⟩) |
    ⟨i, _, rfl⟩) | ⟨v, _, rfl⟩) | ⟨v, _, rfl⟩
  · exact sound_doubleField (by decide) _
  · exact sound_doubleField (by decide) _
  · exact sound_doubleField (by decide) x
  · exact sound_doubleField (by decide) x
  · exact sound_doubleField (by decide) x
  · exact sound_doubleField (by decide) x
  · exact .varint (by decide) (ofLong_lt _)
  · exact .varint (by decide) (ofLong_lt _)
  · exact .varint (by decide) (ofLong_lt _)

theorem sound_metricFields (depth : Nat) (name : String) (value : Metric)
    (h : (Field.writeAll (metricFields name value)).length < UInt64.size) :
    ∀ f ∈ metricFields name value, Field.Sound (depth + 1) f := by
  have hbytes : ∀ n bs, Field.delimited n bs ∈ metricFields name value → bs.length < UInt64.size :=
    fun n bs hmem => Nat.lt_of_le_of_lt
      (Nat.le_trans (Field.length_le_write_delimited n bs) (Field.length_write_le hmem)) h
  have hvalue : Field.Sound (depth + 1) (valueField value).2 := by
    cases value with
    | bool b => exact .varint (by decide) (by cases b <;> decide)
    | long v => exact .varint (by decide) (ofLong_lt v)
    | int v => exact .varint (by decide) (ofLong_lt _)
    | double x => exact .fixed64 (by decide) x.bits.toNat_lt
    | float x => exact .fixed32 (by decide) x.bits.toNat_lt
    | string s => exact .delimited (by decide) (hbytes 8 _ (by simp [metricFields, valueField]))
    | bytes bs => exact .delimited (by decide) (hbytes 9 _ (by simp [metricFields, valueField]))
  intro f hf
  simp only [metricFields, List.mem_cons, List.not_mem_nil, or_false] at hf
  rcases hf with rfl | rfl | rfl
  · exact .delimited (by decide) (hbytes 1 _ (by simp [metricFields]))
  · exact .varint (by decide) (by generalize (valueField value).1 = k; cases k <;> decide)
  · exact hvalue

def Fits (p : Payload) : Prop :=
  ∀ n bs, Field.delimited n bs ∈ fields p → bs.length < UInt64.size

/-- A payload fits the wire if its bytes can be counted. -/
theorem fits_of_length {p : Payload} (h : (encode p).length < UInt64.size) : Fits p :=
  fun n bs hmem => Nat.lt_of_le_of_lt
    (Nat.le_trans (Field.length_le_write_delimited n bs) (Field.length_write_le hmem)) h

theorem sound_fields (depth : Nat) {p : Payload} (h : Fits p) :
    ∀ f ∈ fields p, Field.Sound (depth + 1) f := by
  intro f hf
  have hmem := hf
  simp only [fields, List.mem_append, List.mem_map, mem_optional] at hf
  rcases hf with ((⟨i, _, rfl⟩ | ⟨pos, _, rfl⟩) | ⟨e, _, rfl⟩) | ⟨body, _, rfl⟩
  · exact .varint (by decide) (ofLong_lt _)
  · exact .delimited (by decide) (h 2 _ hmem)
  · exact .delimited (by decide) (h 5000 _ hmem)
  · exact .delimited (by decide) (h 5001 _ hmem)

/-! ## 5. A payload read back -/

theorem read_metrics (entries : List (String × Metric))
    (h : ∀ e ∈ entries, (Field.writeAll (metricFields e.1 e.2)).length < UInt64.size) (q : RawPayload) :
    ∃ ms, (entries.map fun (name, value) =>
        Field.delimited 5000 (Field.writeAll (metricFields name value))).foldlM RawPayload.add q =
          some { q with metrics := q.metrics ++ ms } ∧
      ms.mapM RawMetric.finish = .ok entries := by
  induction entries generalizing q with
  | nil => exact ⟨[], by simp, rfl⟩
  | cons e entries ih =>
    obtain ⟨m, hread, hfinish⟩ := read_metricFields e.1 e.2
    have hfields := Field.readAll_writeAll 1 (metricFields e.1 e.2)
      (sound_metricFields _ e.1 e.2 (h e List.mem_cons_self))
    obtain ⟨ms, hms, hall⟩ := ih (fun e' he => h e' (List.mem_cons_of_mem _ he))
      { q with metrics := q.metrics ++ [m] }
    refine ⟨m :: ms, ?_, ?_⟩
    · rw [List.map_cons, List.foldlM_cons]
      simp only [RawPayload.add, hfields, hread, Option.bind_eq_bind, Option.bind_some]
      rw [hms, List.append_assoc, List.singleton_append]
    · rw [List.mapM_cons, hfinish, hall]
      rfl

theorem read_fields {p : Payload} (h : Fits p) :
    ∃ ms, (fields p).foldlM RawPayload.add {} = some
        { timestamp := p.timestamp.map fun i => toLong (ofMillis i)
          position := p.position.map RawPosition.of
          metrics := ms
          body := p.body } ∧
      ms.mapM RawMetric.finish = .ok p.metrics.entries := by
  let q : RawPayload :=
    { timestamp := p.timestamp.map fun i => toLong (ofMillis i)
      position := p.position.map RawPosition.of }
  -- The parts are read one after the other: time, position, metrics, body.
  have h1 : (optional (fun i => .varint 1 (ofMillis i)) p.timestamp).foldlM RawPayload.add {} =
      some { q with position := none } :=
    foldlM_optional _
      (fun v => { q with timestamp := v.map fun i => toLong (ofMillis i), position := none })
      (fun i => rfl) p.timestamp
  have h2 := foldlM_append_eq h1 <| foldlM_optional
    (fun pos => .delimited 2 (Field.writeAll (positionFields pos)))
    (fun v => { q with position := v.map RawPosition.of })
    (fun pos => by
      have hfields := Field.readAll_writeAll 1 (positionFields pos) (sound_positionFields _ pos)
      simp [RawPayload.add, hfields, read_positionFields])
    p.position
  have hmetrics : ∀ e ∈ p.metrics.entries,
      (Field.writeAll (metricFields e.1 e.2)).length < UInt64.size := by
    intro e he
    apply h 5000
    simp only [fields, List.mem_append, List.mem_map]
    exact .inl (.inr ⟨e, he, rfl⟩)
  obtain ⟨ms, h3, hall⟩ := read_metrics p.metrics.entries hmetrics q
  have h4 := foldlM_append_eq (foldlM_append_eq h2 h3) <| foldlM_optional
    (Field.delimited 5001) (fun v => { q with metrics := q.metrics ++ ms, body := v })
    (fun bs => rfl) p.body
  exact ⟨ms, h4, hall⟩

/-- Reading each part of what was written, where there is one. -/
theorem mapM_map {α β γ : Type} {read : β → Except Malformation γ} {write : α → β} {kept : α → γ}
    (v : Option α) (h : ∀ a ∈ v, read (write a) = .ok (kept a)) :
    (v.map write).mapM read = .ok (v.map kept) := by
  cases v with
  | none => rfl
  | some a =>
    rw [Option.map_some, Option.mapM_some, h a rfl]
    rfl

theorem finish_of (pos : Position) (h : ∀ i ∈ pos.timestamp, i.HasMillis) :
    (RawPosition.of pos).finish = .ok pos.carried := by
  have htime := mapM_map pos.timestamp fun i hi => instant_ofMillis i (h i hi)
  simp only [RawPosition.finish, RawPosition.of, htime]
  rfl

theorem read_encode {p : Payload} (h : Fits p) :
    ∃ ms, RawPayload.read (encode p) = some
        { timestamp := p.timestamp.map fun i => toLong (ofMillis i)
          position := p.position.map RawPosition.of
          metrics := ms
          body := p.body } ∧
      ms.mapM RawMetric.finish = .ok p.metrics.entries := by
  obtain ⟨ms, hread, hms⟩ := read_fields h
  have hfields := Field.readAll_writeAll 0 (fields p) (sound_fields _ h)
  refine ⟨ms, ?_, hms⟩
  rw [RawPayload.read, encode, hfields, Option.bind_eq_bind, Option.bind_some, hread]

theorem decode_encode_of_fits {p : Payload} (hp : p.HasMillis) (h : Fits p) :
    decode (encode p) = .ok p.carried := by
  obtain ⟨ms, hread, hms⟩ := read_encode h
  have htime := mapM_map p.timestamp fun i hi => instant_ofMillis i (hp.timestamp i hi)
  have hposition := mapM_map p.position fun pos hpos => finish_of pos (hp.position pos hpos)
  rw [decode, hread]
  simp only [RawPayload.finish, htime, hposition, hms]
  show Except.ok _ = _
  rw [SortedMap.ofList_entries]
  rfl

/-! What is read without fault was read without fault part by part. -/

theorem exists_of_bind_eq_ok {ε α β : Type} {x : Except ε α} {f : α → Except ε β} {b : β}
    (h : x >>= f = .ok b) : ∃ a, x = .ok a ∧ f a = .ok b := by
  cases x with
  | error e => cases h
  | ok a => exact ⟨a, rfl, h⟩

theorem mapM_cons_eq_ok_iff {ε α β : Type} {f : α → Except ε β} {a : α} {as : List α}
    {bs : List β} : (a :: as).mapM f = .ok bs ↔
      ∃ b more, f a = .ok b ∧ as.mapM f = .ok more ∧ bs = b :: more := by
  rw [List.mapM_cons]
  constructor
  · intro h
    obtain ⟨b, hb, h⟩ := exists_of_bind_eq_ok h
    obtain ⟨more, hmore, h⟩ := exists_of_bind_eq_ok h
    cases h
    exact ⟨b, more, hb, hmore, rfl⟩
  · rintro ⟨b, more, hb, hmore, rfl⟩
    rw [hb, hmore]
    rfl

theorem exists_of_mapM_eq_ok {α β : Type} {f : α → Except Malformation β} {v : Option α}
    {w : Option β} (h : v.mapM f = .ok w) :
    (∀ a ∈ v, ∃ b ∈ w, f a = .ok b) ∧ ∀ b ∈ w, ∃ a ∈ v, f a = .ok b := by
  cases v with
  | none => cases h; simp
  | some a =>
    rw [Option.mapM_some] at h
    cases hf : f a with
    | error e => rw [hf] at h; cases h
    | ok b => rw [hf] at h; cases h; simp [hf]

theorem RawPosition.parts_of_finish {raw : RawPosition} {pos : Position}
    (h : raw.finish = .ok pos) : raw.timestamp.mapM instant = .ok pos.timestamp ∧
      pos.latitude = some raw.latitude ∧ pos.longitude = some raw.longitude := by
  obtain ⟨timestamp, htime, h⟩ := exists_of_bind_eq_ok h
  cases h
  exact ⟨htime, rfl, rfl⟩

theorem RawPayload.parts_of_finish {raw : RawPayload} {q : Payload} (h : raw.finish = .ok q) :
    raw.timestamp.mapM instant = .ok q.timestamp ∧
      raw.position.mapM RawPosition.finish = .ok q.position ∧
      (∃ entries, raw.metrics.mapM RawMetric.finish = .ok entries ∧
        q.metrics = SortedMap.ofList entries) ∧ q.body = raw.body := by
  obtain ⟨timestamp, htime, h⟩ := exists_of_bind_eq_ok h
  obtain ⟨position, hposition, h⟩ := exists_of_bind_eq_ok h
  obtain ⟨entries, hentries, h⟩ := exists_of_bind_eq_ok h
  cases h
  exact ⟨htime, hposition, ⟨entries, hentries, rfl⟩, rfl⟩

theorem exists_of_decode {bs : List UInt8} {q : Payload} (h : decode bs = .ok q) :
    ∃ raw, RawPayload.read bs = some raw ∧ raw.finish = .ok q := by
  rw [decode] at h
  split at h
  · cases h
  · next raw hraw =>
    cases hfinish : raw.finish with
    | error fault => rw [hfinish] at h; cases h
    | ok p => rw [hfinish] at h; cases h; exact ⟨raw, hraw, hfinish⟩

/-- A payload is read back only if its times can be counted. -/
theorem hasMillis_of_decode_encode {p q : Payload} (h : Fits p)
    (hdecode : decode (encode p) = .ok q) : p.HasMillis := by
  obtain ⟨ms, hread, -⟩ := read_encode h
  obtain ⟨raw, hraw, hfinish⟩ := exists_of_decode hdecode
  obtain rfl := Option.some.inj (hread.symm.trans hraw)
  obtain ⟨htime, hposition, -⟩ := RawPayload.parts_of_finish hfinish
  constructor
  · intro i hi
    obtain ⟨j, -, hj⟩ := (exists_of_mapM_eq_ok htime).1 _ (Option.mem_map_of_mem _ hi)
    exact hasMillis_of_instant hj
  · intro pos hpos i hi
    obtain ⟨pos', -, hpos'⟩ := (exists_of_mapM_eq_ok hposition).1 _ (Option.mem_map_of_mem _ hpos)
    obtain ⟨hinside, -⟩ := RawPosition.parts_of_finish hpos'
    obtain ⟨j, -, hj⟩ := (exists_of_mapM_eq_ok hinside).1 _ (Option.mem_map_of_mem _ hi)
    exact hasMillis_of_instant hj

/-- **The binary form carries a payload.** -/
theorem decode_encode (p : Payload) (hp : p.HasMillis) (h : (encode p).length < UInt64.size) :
    decode (encode p) = .ok p.carried :=
  decode_encode_of_fits hp (fits_of_length h)

/-- No payload looks like a gzip member. -/
theorem isGzip_encode (p : Payload) : Gzip.isGzip (encode p) = false := by
  cases hbs : encode p with
  | nil => rfl
  | cons b bs =>
    have hb : b ≠ 0x1F := by
      rintro rfl
      exact Field.writeAll_ne_cons (fields p) bs hbs
    have heq : (0x1F == b) = false := beq_false_of_ne hb.symm
    rw [Gzip.isGzip, Gzip.magic, List.isPrefixOf, heq, Bool.false_and]

end Payload.Binary

/-! ## 6. With and without gzip -/

namespace Options

/-- Unpacking is the end of packing, whether or not the options ask for it. -/
theorem unwrapWith_encodePayloadWith {z : Gzip.Packer} (hz : z.Lossless) (o : Options)
    (ho : o.encoding = .binary) (p : Payload) :
    unwrapWith z (o.encodePayloadWith z p) = Payload.Binary.encode p := by
  simp only [encodePayloadWith, ho, Encoding.encode, and_true, unwrapWith]
  by_cases hg : o.gzip = true
  · rw [if_pos hg, if_pos (hz.isGzip_compress _), hz.decompress_compress]
    rfl
  · rw [if_neg hg, if_neg (by rw [Payload.Binary.isGzip_encode]; decide)]

/-- **A payload in the binary form survives the way**, whatever the two sides think of gzip, and its
plain form is never taken for a gzip member. The bytes of a message are fewer than `UInt64.size`, since
they are in memory at once. -/
theorem decodePayloadWith_encodePayloadWith (z : Gzip.Packer) (hz : z.Lossless) (o o' : Options)
    (ho : o.encoding = .binary) (ho' : o'.encoding = .binary) (p : Payload) (hp : p.HasMillis)
    (hsize : (Payload.Binary.encode p).length < UInt64.size) :
    o'.decodePayloadWith z (o.encodePayloadWith z p) = p.carried ∧
      Gzip.isGzip (Payload.Binary.encode p) = false := by
  refine ⟨?_, Payload.Binary.isGzip_encode p⟩
  rw [decodePayloadWith, unwrapWith_encodePayloadWith hz o ho, ho']
  simp only [Encoding.decode, Payload.Binary.decode_encode p hp hsize]

/-- A payload with a time, an incomplete position and metrics, sent packed and read by a side that
does not pack. -/
def reading : Payload :=
  { timestamp := some ⟨1700000000, 123456789, by decide, by decide, by decide⟩
    position := some { latitude := some ⟨0x4047000000000000⟩, satellites := some (-1) }
    metrics := SortedMap.ofList
      [("level", .int (-7)), ("name", .string "tank"), ("raw", .bytes [0x1F, 0x8B])]
    body := some [1, 2, 3] }

theorem reading_survives :
    Gzip.Packer.storing.Lossless ∧ reading.HasMillis ∧
      (Payload.Binary.encode reading).length < UInt64.size ∧
      ({ gzip := false } : Options).decodePayload
        (({ gzip := true } : Options).encodePayload reading) = reading.carried := by
  have hp : reading.HasMillis := by
    constructor
    · rintro i ⟨⟩
      show (_ : Int) ≤ _
      decide
    · rintro pos ⟨⟩ i ⟨⟩
  have hsize : (Payload.Binary.encode reading).length < UInt64.size := by
    have hentries : reading.metrics.entries =
        [("level", .int (-7)), ("name", .string "tank"), ("raw", .bytes [0x1F, 0x8B])] := by
      decide +kernel
    rw [Payload.Binary.encode, Payload.Binary.fields, hentries]
    simp only [Payload.Binary.positionFields, Payload.Binary.metricFields,
      Payload.Binary.valueField, Payload.Binary.optional, reading, Wire.Field.writeAll,
      List.map, List.cons_append, List.nil_append, Option.map, Option.toList, Wire.Field.write,
      Payload.Binary.doubleField]
    decide +kernel
  exact ⟨Gzip.storing_lossless, hp, hsize,
    (decodePayloadWith_encodePayloadWith .storing Gzip.storing_lossless { gzip := true }
      { gzip := false } rfl rfl reading hp hsize).1⟩

end Options

end Uplink
