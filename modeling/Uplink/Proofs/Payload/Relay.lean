import Uplink.Proofs.Payload.Size

/-!
# Payloads that are passed on

Whatever bytes arrive, the payload that is found in them is one that the binary form carries as it
is: its times are whole milliseconds, its positions have both coordinates, and nothing in it is
longer than the bytes were. So it can be passed on any number of times.
-/

namespace Uplink

open Number Time Wire

/-! ## 1. Instants of whole milliseconds -/

namespace Time.Instant

/-- Nothing of an instant is below a millisecond, and it is not in a leap second. -/
structure WholeMillis (i : Instant) : Prop where
  hasMillis : i.HasMillis
  toMillisecond_eq : i.toMillisecond = i

theorem wholeMillis_of_ofMillis? {m : Int} {i : Instant} (h : ofMillis? m = some i) :
    i.WholeMillis := by
  have hmillis := millis_of_ofMillis? h
  subst hmillis
  by_cases hi : i.HasMillis
  · rw [ofMillis?_millis i hi] at h
    exact ⟨hi, Option.some.inj h⟩
  · rw [ofMillis?_millis_eq_none i hi] at h
    cases h

theorem map_toMillisecond_eq {time : Option Instant} (h : ∀ i ∈ time, i.WholeMillis) :
    time.map toMillisecond = time := by
  cases time with
  | none => rfl
  | some i => rw [Option.map_some, (h i rfl).toMillisecond_eq]

end Time.Instant

namespace Payload.Binary

/-! ## 2. How much a payload holds that was read -/

def textLoad (s : Option String) : Nat := (s.map fun s => (Utf8.bytes s).length).getD 0

def bytesLoad (bs : Option (List UInt8)) : Nat := (bs.map List.length).getD 0

/-- How many bytes a metric holds while it is read. -/
def RawMetric.load (m : RawMetric) : Nat :=
  (Utf8.bytes m.name).length + textLoad m.string + bytesLoad m.bytes

-- The name of a metric and its value come from different fields of one message, so it is their sum
-- that the message bounds.
theorem RawMetric.load_add {m m' : RawMetric} {f : Field} (h : m.add f = some m') :
    m'.load ≤ m.load + f.load := by
  unfold RawMetric.add at h
  split at h
  case h_1 bs =>
    obtain ⟨s, hs, rfl⟩ := Option.map_eq_some_iff.1 h
    simp only [RawMetric.load, Utf8.bytes_of_ofBytes? hs, Field.load_delimited]
    omega
  case h_8 bs =>
    obtain ⟨s, hs, rfl⟩ := Option.map_eq_some_iff.1 h
    simp only [RawMetric.load, textLoad, Option.map_some, Option.getD_some,
      Utf8.bytes_of_ofBytes? hs, Field.load_delimited]
    omega
  case h_9 bs =>
    cases h
    simp only [RawMetric.load, bytesLoad, Option.map_some, Option.getD_some, Field.load_delimited]
    omega
  case h_10 =>
    split at h <;> cases h
    exact Nat.le_add_right ..
  all_goals
    cases h
    exact Nat.le_add_right ..

theorem RawMetric.load_foldlM {fields : List Field} {m m' : RawMetric}
    (h : fields.foldlM RawMetric.add m = some m') : m'.load ≤ m.load + Field.loads fields := by
  induction fields generalizing m with
  | nil => cases h; exact Nat.le_refl _
  | cons f fields ih =>
    obtain ⟨mid, hmid, h⟩ := foldlM_cons_eq_some_iff.1 h
    have hfirst := RawMetric.load_add hmid
    have hothers := ih h
    rw [Field.loads_cons]
    omega

/-- Neither a metric that was read nor the body holds more than so many bytes. -/
structure RawPayload.Within (limit : Nat) (p : RawPayload) : Prop where
  metrics : ∀ m ∈ p.metrics, m.load ≤ limit
  body : ∀ bs ∈ p.body, bs.length ≤ limit

theorem RawPayload.Within.add {limit : Nat} {p p' : RawPayload} {f : Field}
    (hp : p.Within limit) (hf : f.load ≤ limit) (h : p.add f = some p') : p'.Within limit := by
  unfold RawPayload.add at h
  split at h
  case h_3 bs =>
    simp only [Option.bind_eq_bind, Option.bind_eq_some_iff] at h
    obtain ⟨fields, hread, m, hm, heq⟩ := h
    cases heq
    have hloads := Field.loads_le_of_isMessage (Field.readAll_eq_some_iff.1 hread)
    -- A metric starts out empty.
    have hmetric : m.load ≤ 0 + Field.loads fields := RawMetric.load_foldlM hm
    refine ⟨fun m' hm' => ?_, hp.body⟩
    rcases List.mem_append.1 hm' with hm' | hm'
    · exact hp.metrics m' hm'
    · cases List.mem_singleton.1 hm'
      rw [Field.load_delimited] at hf
      omega
  case h_4 bs =>
    cases h
    exact ⟨hp.metrics, fun bs' hbs => by cases hbs; exact hf⟩
  case h_2 bs =>
    simp only [Option.bind_eq_bind, Option.bind_eq_some_iff] at h
    obtain ⟨fields, hread, position, hposition, heq⟩ := h
    cases heq
    exact ⟨hp.metrics, hp.body⟩
  case h_5 =>
    split at h <;> cases h
    exact hp
  case h_1 =>
    cases h
    exact ⟨hp.metrics, hp.body⟩

theorem RawPayload.Within.foldlM {limit : Nat} {fields : List Field} {p p' : RawPayload}
    (hp : p.Within limit) (hfields : ∀ f ∈ fields, f.load ≤ limit)
    (h : fields.foldlM RawPayload.add p = some p') : p'.Within limit := by
  induction fields generalizing p with
  | nil => cases h; exact hp
  | cons f fields ih =>
    obtain ⟨hf, hfields⟩ := List.forall_mem_cons.1 hfields
    obtain ⟨mid, hmid, h⟩ := foldlM_cons_eq_some_iff.1 h
    exact ih (hp.add hf hmid) hfields h

/-- A payload holds no more than the bytes in which it is found. -/
theorem within_of_read {bs : List UInt8} {raw : RawPayload} (h : RawPayload.read bs = some raw) :
    raw.Within bs.length := by
  obtain ⟨fields, hread, hfold⟩ := Option.bind_eq_some_iff.1 h
  have hloads := Field.loads_le_of_isMessage (Field.readAll_eq_some_iff.1 hread)
  have hempty : RawPayload.Within bs.length {} := ⟨by simp, by simp⟩
  exact hempty.foldlM (fun f hf => Nat.le_trans (Field.load_le_loads hf) hloads) hfold

/-! ## 3. What a payload that was read takes when it is written -/

/-- The value of a metric is in one of the slots that were read. -/
theorem RawMetric.load_of_value? {m : RawMetric} {kind : MetricKind} {value : Metric}
    (h : m.value? kind = some value) :
    (valueField value).2.load ≤ textLoad m.string + bytesLoad m.bytes := by
  cases kind
  all_goals
    obtain ⟨v, hv, rfl⟩ := Option.map_eq_some_iff.1 h
    simp [valueField, Field.load, textLoad, bytesLoad, hv]

theorem RawMetric.exists_of_finish {m : RawMetric} {e : String × Metric} (h : m.finish = .ok e) :
    e.1 = m.name ∧ ∃ kind, m.value? kind = some e.2 := by
  rw [RawMetric.finish] at h
  split at h
  · cases h
  · next kind _ =>
    split at h
    · next value hvalue => cases h; exact ⟨rfl, kind, hvalue⟩
    · cases h

theorem RawMetric.length_metricFields_le {m : RawMetric} {e : String × Metric}
    (h : m.finish = .ok e) : (Field.writeAll (metricFields e.1 e.2)).length ≤ m.load + 60 := by
  obtain ⟨hname, kind, hvalue⟩ := RawMetric.exists_of_finish h
  have hload := RawMetric.load_of_value? hvalue
  have hwritten := Binary.length_metricFields_le e.1 e.2
  rw [hname] at hwritten
  rw [RawMetric.load, hname]
  omega

theorem exists_of_mem_mapM {α β : Type} {f : α → Except Malformation β} {as : List α}
    {bs : List β} (h : as.mapM f = .ok bs) : ∀ b ∈ bs, ∃ a ∈ as, f a = .ok b := by
  induction as generalizing bs with
  | nil => cases h; simp
  | cons a as ih =>
    obtain ⟨first, more, hfirst, hmore, rfl⟩ := mapM_cons_eq_ok_iff.1 h
    intro b hb
    rcases List.mem_cons.1 hb with rfl | hb
    · exact ⟨a, List.mem_cons_self, hfirst⟩
    · obtain ⟨a', ha', hf⟩ := ih hmore b hb
      exact ⟨a', List.mem_cons_of_mem _ ha', hf⟩

theorem fits_of_decode {bs : List UInt8} {q : Payload} (h : decode bs = .ok q)
    (hbs : bs.length < Nat.pow 2 63) : Fits q := by
  obtain ⟨raw, hread, hfinish⟩ := exists_of_decode h
  have hwithin := within_of_read hread
  obtain ⟨-, -, ⟨entries, hentries, hmetrics⟩, hbody⟩ := RawPayload.parts_of_finish hfinish
  have hlimit : Nat.pow 2 63 + 180 ≤ UInt64.size := by decide
  intro n inside hmem
  simp only [fields, List.mem_append, List.mem_map, mem_optional] at hmem
  rcases hmem with ((⟨i, _, heq⟩ | ⟨pos, _, heq⟩) | ⟨e, he, heq⟩) | ⟨body, hmem, heq⟩
  · cases heq
  · cases heq
    have := length_positionFields_le pos
    omega
  · cases heq
    rw [hmetrics] at he
    obtain ⟨m, hm, hfinishes⟩ := exists_of_mem_mapM hentries e (SortedMap.mem_of_mem_ofList he)
    have := RawMetric.length_metricFields_le hfinishes
    have := hwithin.metrics m hm
    omega
  · cases heq
    have := hwithin.body inside (hbody ▸ hmem)
    omega

/-! ## 4. What is found is carried as it is -/

theorem wholeMillis_of_mapM {millis : Option Int64} {time : Option Instant}
    (h : millis.mapM instant = .ok time) : ∀ i ∈ time, i.WholeMillis := by
  intro i hi
  obtain ⟨v, -, hv⟩ := (exists_of_mapM_eq_ok h).2 i hi
  rw [instant] at hv
  split at hv
  · next hmillis => cases hv; exact Instant.wholeMillis_of_ofMillis? hmillis
  · cases hv

theorem RawPosition.carried_of_finish {raw : RawPosition} {pos : Position}
    (h : raw.finish = .ok pos) : pos.carried = pos ∧ ∀ i ∈ pos.timestamp, i.WholeMillis := by
  obtain ⟨htime, hlatitude, hlongitude⟩ := RawPosition.parts_of_finish h
  have hwhole := wholeMillis_of_mapM htime
  refine ⟨?_, hwhole⟩
  rw [Position.carried, Instant.map_toMillisecond_eq hwhole, hlatitude, hlongitude]
  cases pos
  cases hlatitude
  cases hlongitude
  rfl

end Payload.Binary

namespace Payload

/-- The binary form carries a payload as it is. -/
structure Exact (p : Payload) : Prop where
  hasMillis : p.HasMillis
  carried_eq : p.carried = p
  fits : Binary.Fits p

theorem exact_of_decode {bs : List UInt8} {q : Payload} (h : Binary.decode bs = .ok q)
    (hbs : bs.length < Nat.pow 2 63) : q.Exact := by
  obtain ⟨raw, -, hfinish⟩ := Binary.exists_of_decode h
  obtain ⟨htime, hposition, -, -⟩ := Binary.RawPayload.parts_of_finish hfinish
  have hwhole := Binary.wholeMillis_of_mapM htime
  have hpos : ∀ pos ∈ q.position, pos.carried = pos ∧ ∀ i ∈ pos.timestamp, i.WholeMillis := by
    intro pos hmem
    obtain ⟨rawPos, -, hfinishes⟩ := (Binary.exists_of_mapM_eq_ok hposition).2 pos hmem
    exact Binary.RawPosition.carried_of_finish hfinishes
  refine ⟨⟨fun i hi => (hwhole i hi).hasMillis, fun pos hmem i hi =>
    ((hpos pos hmem).2 i hi).hasMillis⟩, ?_, Binary.fits_of_decode h hbs⟩
  have hpositions : q.position.map Position.carried = q.position := by
    cases hq : q.position with
    | none => rfl
    | some pos => rw [Option.map_some, (hpos pos hq).1]
  rw [carried, Instant.map_toMillisecond_eq hwhole, hpositions]

theorem exact_ofBody {body : List UInt8} (h : body.length < UInt64.size) :
    (ofBody body).Exact := by
  refine ⟨⟨by simp [ofBody], by simp [ofBody]⟩, rfl, fun n bs hmem => ?_⟩
  have hfields : Binary.fields (ofBody body) = [.delimited 5001 body] := rfl
  rw [hfields] at hmem
  cases List.mem_singleton.1 hmem
  exact h

end Payload

/-! ## 5. Passing on -/

namespace Options

theorem exact_decodePayloadWith (z : Gzip.Packer) {o : Options} (ho : o.encoding = .binary)
    {bs : List UInt8} (hbs : bs.length < Nat.pow 2 63)
    (hexpanded : (unwrapWith z bs).length < Nat.pow 2 63) : (o.decodePayloadWith z bs).Exact := by
  cases hdecode : o.encoding.decode (unwrapWith z bs) with
  | ok q =>
    rw [decodePayloadWith_of_ok hdecode]
    rw [ho] at hdecode
    exact Payload.exact_of_decode hdecode hexpanded
  | error fault =>
    rw [decodePayloadWith_of_error hdecode]
    exact Payload.exact_ofBody (Nat.lt_trans hbs (by decide))

/-- **What was received is passed on as it is**, whatever bytes it was found in and whoever packs
it. Bytes in memory, as they arrive or unpacked, are fewer than `2 ^ 63`. -/
theorem decodePayloadWith_relayed {z : Gzip.Packer} (hz : z.Lossless) {o o' o'' : Options}
    (ho : o.encoding = .binary) (ho' : o'.encoding = .binary) (ho'' : o''.encoding = .binary)
    (bs : List UInt8) (hbs : bs.length < Nat.pow 2 63)
    (hexpanded : (unwrapWith z bs).length < Nat.pow 2 63) :
    o'.decodePayloadWith z (o.encodePayloadWith z (o''.decodePayloadWith z bs)) =
      o''.decodePayloadWith z bs := by
  have hexact := exact_decodePayloadWith z ho'' hbs hexpanded
  generalize o''.decodePayloadWith z bs = p at hexact
  have hdecode := Payload.Binary.decode_encode_of_fits hexact.hasMillis hexact.fits
  rw [hexact.carried_eq] at hdecode
  apply decodePayloadWith_of_ok
  rw [unwrapWith_encodePayloadWith hz o ho, ho']
  exact hdecode

/-- The body, a time, a metric, a part of a position, the metric again, another part of the
position, and the time again. -/
def scattered : List UInt8 :=
  [0xCA, 0xB8, 0x02, 0x01, 0x2A, 0x08, 0x01,
    0xC2, 0xB8, 0x02, 0x07, 0x0A, 0x01, 0x61, 0x10, 0x04, 0x38, 0x01, 0x12, 0x02, 0x40, 0x05,
    0xC2, 0xB8, 0x02, 0x07, 0x0A, 0x01, 0x61, 0x10, 0x04, 0x38, 0x00, 0x12, 0x02, 0x48, 0x01,
    0x08, 0xE8, 0x07]

/-- A message in an order of its own is passed on as it was read, and so is a gzip member that is
broken off. -/
theorem decodePayloadWith_relayed_scattered :
    Gzip.Packer.storing.Lossless ∧
      ({ gzip := false } : Options).decodePayload scattered =
        { timestamp := Instant.ofMillis? 1000
          position := some
            { latitude := some .zero, longitude := some .zero, satellites := some 5
              status := some 1 }
          metrics := SortedMap.ofList [("a", .bool false)]
          body := some [0x2A] } ∧
      ({ gzip := false } : Options).decodePayload (({ gzip := true } : Options).encodePayload
          (({ gzip := false } : Options).decodePayload scattered)) =
        ({ gzip := false } : Options).decodePayload scattered ∧
      ({ gzip := false } : Options).decodePayload (({ gzip := true } : Options).encodePayload
          (({ gzip := true } : Options).decodePayload [0x1F, 0x8B, 0x00])) =
        .ofBody [0x1F, 0x8B, 0x00] := by
  have hbroken : ({ gzip := true } : Options).decodePayload [0x1F, 0x8B, 0x00] =
      .ofBody [0x1F, 0x8B, 0x00] := rfl
  refine ⟨Gzip.storing_lossless, rfl, ?_, ?_⟩
  · exact decodePayloadWith_relayed Gzip.storing_lossless rfl rfl rfl scattered (by decide)
      (by decide)
  · exact (decodePayloadWith_relayed Gzip.storing_lossless rfl rfl rfl [0x1F, 0x8B, 0x00]
      (by decide) (by decide)).trans hbroken

end Options

end Uplink
