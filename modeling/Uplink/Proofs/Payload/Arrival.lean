import Uplink.Proofs.Payload.Readability
import Uplink.Proofs.Payload.Size
import Uplink.Proofs.Payload.Unpacking

/-!
# What arrives of a payload

Both forms of a payload leave something behind on the way, the JSON form more than the binary one.
The module says for both at once what arrives of the payload of a message, packed or not, so that
nobody who sends one has to know in which form it goes out.
-/

namespace Uplink

open Payload

/-! ## 1. What the forms carry -/

namespace Encoding

def carriedMetric : Encoding → Metric → Metric
  | .binary, m => m
  | .json, m => JsonForm.carriedMetric m

def carried : Encoding → Payload → Payload
  | .binary => Payload.carried
  | .json => JsonForm.carried

/-- A payload can be read when it arrives. The binary form needs times that can be counted, and the
JSON form numbers whose texts have their values. -/
def Bears : Encoding → Payload → Prop
  | .binary, p => p.HasMillis
  | .json, p => ∀ e ∈ p.metrics.entries, ∀ x ∈ JsonForm.metricDoubles e.2, JsonForm.IsCarried x

/-- So can its position. -/
def BearsPosition : Encoding → Payload → Prop
  | .binary, _ => True
  | .json, p => ∀ pos ∈ p.position, ∀ x ∈ JsonForm.positionDoubles pos, JsonForm.IsCarried x

/-- A message is not too long for its form. The binary form tells lengths in 64 bits, which bytes
that are in memory at once never exceed. -/
def Measures : Encoding → List UInt8 → Prop
  | .binary, bs => bs.length < UInt64.size
  | .json, _ => True

/-- What a payload is read as when it arrives. -/
structure Arrives (e : Encoding) (p q : Payload) : Prop where
  timestamp : q.timestamp = (e.carried p).timestamp
  position : e.BearsPosition p → q.position = (e.carried p).position
  metrics : ∀ name, q.metric? name = (p.metric? name).map e.carriedMetric
  body : q.body = p.body

variable {e : Encoding} {p : Payload}

theorem metric?_carried (e : Encoding) (p : Payload) (name : String) :
    (e.carried p).metric? name = (p.metric? name).map e.carriedMetric := by
  cases e with
  | binary => exact (congrFun Option.map_id _).symm
  | json => exact SortedMap.get?_mapValues JsonForm.carriedMetric p.metrics name

theorem body_carried (e : Encoding) (p : Payload) : (e.carried p).body = p.body := by
  cases e <;> rfl

theorem arrives_carried (e : Encoding) (p : Payload) : e.Arrives p (e.carried p) :=
  ⟨rfl, fun _ => rfl, metric?_carried e p, body_carried e p⟩

/-- Texts arrive as they are in both forms. -/
theorem Arrives.string? {q : Payload} (h : e.Arrives p q) {name text : String}
    (hname : p.metric? name = some (.string text)) : q.string? name = some text := by
  rw [Payload.string?, h.metrics, hname]
  cases e <;> rfl

theorem Arrives.metric?_eq_none {q : Payload} (h : e.Arrives p q) {name : String}
    (hname : p.metric? name = none) : q.metric? name = none := by
  rw [h.metrics, hname]
  rfl

/-- A metric that is no number with a fraction can be added to any payload. -/
theorem Bears.add (h : e.Bears p) {value : Metric} (hvalue : JsonForm.metricDoubles value = [])
    (name : String) : e.Bears (p.add name value) := by
  cases e with
  | binary => exact ⟨h.timestamp, h.position⟩
  | json =>
    intro m hm x hx
    rcases mem_insertEntry hm with rfl | hm
    · rw [hvalue] at hx
      cases hx
    · exact h m hm x hx

/-! ## 2. Reading what was written -/

theorem exists_decode_encode (h : e.Bears p) (hsize : e.Measures (e.encode p)) :
    ∃ q, e.decode (e.encode p) = .ok q ∧ e.Arrives p q := by
  cases e with
  | binary => exact ⟨_, Binary.decode_encode p h hsize, arrives_carried .binary p⟩
  | json =>
    obtain ⟨position, hdecode⟩ := JsonForm.exists_decode_encode_of_isCarried h
    refine ⟨_, hdecode, rfl, fun hposition => ?_, metric?_carried .json p, rfl⟩
    -- Where the position can be read as well, everything arrives.
    have hdoubles : ∀ x ∈ JsonForm.doubles p, JsonForm.IsCarried x := by
      intro x hx
      rcases List.mem_append.1 hx with hx | hx
      · obtain ⟨m, hm, hx⟩ := List.mem_flatMap.1 hx
        exact h m hm x hx
      · obtain ⟨pos, hpos, hx⟩ := List.mem_flatMap.1 hx
        exact hposition pos (Option.mem_toList.1 hpos) x hx
    have hwhole := JsonForm.decode_encode_of_isCarried p hdoubles
    exact congrArg Payload.position (Except.ok.inj (hdecode.symm.trans hwhole))

end Encoding

/-! ## 3. Packed or not -/

namespace Options

variable {o o' : Options} {p : Payload}

theorem length_encode_le (o : Options) (p : Payload) :
    (o.encoding.encode p).length ≤ (o.encodePayload p).length := by
  rw [encodePayload, encodePayloadWith]
  split
  · exact Gzip.le_length_compress _
  · exact Nat.le_refl _

theorem measures_encode (h : o.encoding.Measures (o.encodePayload p)) :
    o.encoding.Measures (o.encoding.encode p) := by
  have hle := length_encode_le o p
  generalize o.encodePayload p = packed at h hle
  cases ho : o.encoding with
  | binary =>
    rw [ho] at h hle
    exact Nat.lt_of_le_of_lt hle h
  | json => trivial

/-- Some hundreds of short metrics are not too long for a message. -/
theorem measures_encodePayload {limit : Nat} (h : Payload.Binary.Within limit p)
    (hsize : 2 * ((limit + 200) * (p.metrics.entries.length + 3)) + 23 < UInt64.size) :
    o.encoding.Measures (o.encodePayload p) := by
  cases ho : o.encoding with
  | binary => exact length_encodePayload_lt ho h hsize
  | json => trivial

theorem unwrap_encodePayload {q : Payload}
    (h : o.encoding.decode (o.encoding.encode p) = .ok q) :
    unwrap (o.encodePayload p) = o.encoding.encode p := by
  rw [unwrap, encodePayload, encodePayloadWith]
  split
  · exact unwrapWith_of_decompress (Gzip.isGzip_compress _) (Gzip.decompress_compress _)
  · exact unwrapWith_of_not_isGzip (Encoding.isGzip_of_decode h)

/-- **What is sent arrives.** Whoever knows the form in which a payload was sent reads of it what
that form carries, whether it was packed or not. -/
theorem arrives_decodePayload (ho : o'.encoding = o.encoding) (h : o.encoding.Bears p)
    (hsize : o.encoding.Measures (o.encodePayload p)) :
    o.encoding.Arrives p (o'.decodePayload (o.encodePayload p)) := by
  obtain ⟨q, hdecode, harrives⟩ := Encoding.exists_decode_encode h (measures_encode hsize)
  have hread : o'.encoding.decode (unwrap (o.encodePayload p)) = .ok q := by
    rw [unwrap_encodePayload hdecode, ho, hdecode]
  rw [decodePayload, decodePayloadWith_of_ok hread]
  exact harrives

end Options

end Uplink
