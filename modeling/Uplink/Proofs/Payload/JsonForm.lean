import Uplink.Payload.Codec
import Uplink.Proofs.Json.Values
import Uplink.Proofs.Payload.RoundTrip
import Uplink.Proofs.Text.Base64

/-!
# Payloads in the JSON form, there and back

The JSON form does not say of which kind a number is, nor that a text stands for bytes. Apart from
that, and from what is below a millisecond, a payload arrives as it was: its names and texts may
have any characters in them, and parts that are empty are not taken for missing ones.
-/

namespace Uplink

open Number Time

/-! ## 1. What the JSON form carries -/

/-- The entries of a map with other values under the same names. -/
def SortedMap.mapValues {α β : Type} (f : α → β) (m : SortedMap α) : SortedMap β where
  entries := m.entries.map fun e => (e.1, f e.2)
  ascending := by
    rw [Ascending, List.pairwise_map]
    exact m.ascending

theorem SortedMap.get?_mapValues {α β : Type} (f : α → β) (m : SortedMap α) (name : String) :
    (m.mapValues f).get? name = (m.get? name).map f := by
  rw [get?, get?, mapValues, List.find?_map, Option.map_map, Option.map_map]
  rfl

namespace Payload.JsonForm

instance (i : Instant) : Decidable i.HasMillis := by
  unfold Instant.HasMillis
  infer_instance

/-- What of an instant is carried: what is not below a millisecond. Only a leap second after the
last second is lost. -/
def carriedInstant (i : Instant) : Option Instant :=
  if i.HasMillis then some i.toMillisecond else none

/-- What of a metric is carried: integers of both widths are long ones, numbers of both precisions
are doubles, and bytes are their base64 text. -/
def carriedMetric : Metric → Metric
  | .int v => .long v.toInt64
  | .float x => .double x.toDouble
  | .bytes bs => .string (Base64.encode bs)
  | m => m

def carriedPosition (p : Position) : Position :=
  { p with timestamp := p.timestamp.bind carriedInstant }

def carried (p : Payload) : Payload where
  timestamp := p.timestamp.bind carriedInstant
  position := p.position.map carriedPosition
  metrics := p.metrics.mapValues carriedMetric
  body := p.body

def metricDoubles : Metric → List Double
  | .double x => [x]
  | .float x => [x.toDouble]
  | _ => []

def positionDoubles (p : Position) : List Double :=
  [p.latitude, p.longitude, p.altitude, p.precision, p.heading, p.speed].filterMap id

def doubles (p : Payload) : List Double :=
  p.metrics.entries.flatMap (fun e => metricDoubles e.2) ++
    p.position.toList.flatMap positionDoubles

/-- A double is a number, and its text has its value. -/
structure IsCarried (x : Double) : Prop where
  isFinite : x.isFinite = true
  readNumber : ∃ v, Json.readNumber true (Json.writeChars (.double x)) = some (v, []) ∧
    v.asDouble? = some x

/-! ## 2. Integers and instants -/

theorem asLong?_of_le {i : Int} (hmin : Int64.minValue.toInt ≤ i)
    (hmax : i ≤ Int64.maxValue.toInt) : Json.asLong? (.int i) = some (Int64.ofInt i) :=
  if_pos ⟨hmin, hmax⟩

theorem int32_bounds (v : Int32) :
    Int64.minValue.toInt ≤ v.toInt ∧ v.toInt ≤ Int64.maxValue.toInt := by
  rw [← Int32.toInt_toInt64]
  exact ⟨Int64.minValue_le_toInt _, Int64.toInt_le _⟩

theorem asInt?_toInt (v : Int32) : Json.asInt? (.int v.toInt) = some v := by
  rw [Json.asInt?, if_pos ⟨Int32.minValue_le_toInt v, Int32.toInt_le v⟩, Int32.ofInt_toInt]

theorem ofMillis?_millis (i : Instant) : Instant.ofMillis? i.millis = carriedInstant i := by
  rw [carriedInstant]
  split
  · next h => exact i.ofMillis?_millis h
  · next h => exact i.ofMillis?_millis_eq_none h

theorem toInstant?_millis (i : Instant) : toInstant? (.int i.millis) = carriedInstant i := by
  obtain ⟨hmin, hmax⟩ := i.millis_mem_long
  rw [toInstant?, asLong?_of_le hmin hmax, Option.bind_some, i.toInt_ofInt_millis,
    ofMillis?_millis]

theorem toSentOn_millis (i : Instant) : toSentOn (.int i.millis) = .ok (carriedInstant i) := by
  obtain ⟨hmin, hmax⟩ := i.millis_mem_long
  rw [toSentOn, asLong?_of_le hmin hmax]
  simp only [i.toInt_ofInt_millis, ofMillis?_millis]

/-! ## 3. Reading what a part was written as -/

/-- Members are looked up in the order in which they were put together. -/
theorem get?_foldl_member (m : SortedMap Json) (n : String) (v : Option Json) (name : String) :
    ((member n v).foldl (fun m e => m.insert e.1 e.2) m).get? name =
      if n = name then v.or (m.get? name) else m.get? name := by
  cases v with
  | none => simp [member]
  | some v =>
    rw [Option.some_or]
    exact SortedMap.get?_insert m n v name

theorem toMetric_ofMetric (name : String) {m : Metric} (h : ∀ x ∈ metricDoubles m, IsCarried x) :
    toMetric name (ofMetric m) = .ok (carriedMetric m) := by
  cases m with
  | bool b => rfl
  | string s => rfl
  | bytes bs => rfl
  | long v =>
    have hlong := asLong?_of_le (Int64.minValue_le_toInt v) (Int64.toInt_le v)
    rw [Int64.ofInt_toInt] at hlong
    simp only [ofMetric, toMetric, hlong]
    rfl
  | int v =>
    have hlong := asLong?_of_le (int32_bounds v).1 (int32_bounds v).2
    rw [Int64.ofInt_int32ToInt] at hlong
    simp only [ofMetric, toMetric, hlong]
    rfl
  | double x =>
    have hx := (h x (by simp [metricDoubles])).isFinite
    rw [ofMetric, Json.ofDouble, if_pos hx]
    rfl
  | float x =>
    have hx := (h x.toDouble (by simp [metricDoubles])).isFinite
    rw [ofMetric, Json.ofDouble, if_pos hx]
    rfl

/-- Metrics are read in the order of their names, in which they were written. -/
theorem toMetrics_mapValues {metrics : SortedMap Metric}
    (h : ∀ e ∈ metrics.entries, ∀ x ∈ metricDoubles e.2, IsCarried x) :
    toMetrics (.object (metrics.mapValues ofMetric).entries) =
      .ok (metrics.mapValues carriedMetric) := by
  have hread (entries : List (String × Metric))
      (h : ∀ e ∈ entries, ∀ x ∈ metricDoubles e.2, IsCarried x) :
      ((entries.map fun e => (e.1, ofMetric e.2)).mapM fun e =>
        (toMetric e.1 e.2).map fun m => (e.1, m)) =
          .ok (entries.map fun e => (e.1, carriedMetric e.2)) := by
    induction entries with
    | nil => rfl
    | cons e entries ih =>
      obtain ⟨he, hentries⟩ := List.forall_mem_cons.1 h
      rw [List.map_cons, List.mapM_cons, toMetric_ofMetric e.1 he, ih hentries]
      rfl
  rw [toMetrics, Json.members?, SortedMap.ofList_entries]
  dsimp only
  rw [SortedMap.mapValues, hread metrics.entries h]
  exact congrArg Except.ok (SortedMap.ofList_entries (metrics.mapValues carriedMetric))

theorem toMetrics_ofMetrics {metrics : SortedMap Metric}
    (h : ∀ e ∈ metrics.entries, ∀ x ∈ metricDoubles e.2, IsCarried x) :
    ∃ read, (ofMetrics metrics).mapM toMetrics = .ok read ∧
      read.getD ∅ = metrics.mapValues carriedMetric := by
  rw [ofMetrics]
  split
  · next hempty =>
    refine ⟨none, rfl, SortedMap.ext ?_⟩
    show [] = metrics.entries.map fun e => (e.1, carriedMetric e.2)
    rw [List.isEmpty_iff.1 hempty, List.map_nil]
  · refine ⟨some (metrics.mapValues carriedMetric), ?_, rfl⟩
    have hread := toMetrics_mapValues h
    exact congrArg (Except.map some) hread

theorem finitePart_of_isFinite {x : Option Double} (h : ∀ y ∈ x, y.isFinite = true) :
    finitePart x = x.map .double := by
  cases x with
  | none => rfl
  | some y => simp [finitePart, Option.filter, h y rfl]

theorem toPosition_ofPosition {p : Position} (h : ∀ x ∈ positionDoubles p, IsCarried x) :
    toPosition (ofPosition p) = .ok (carriedPosition p) := by
  have hpart (x : Option Double)
      (hx : x ∈ [p.latitude, p.longitude, p.altitude, p.precision, p.heading, p.speed]) :
      (finitePart x).bind Json.asDouble? = x := by
    have hfinite : ∀ y ∈ x, y.isFinite = true := fun y hy =>
      (h y (List.mem_filterMap.2 ⟨x, hx, hy⟩)).isFinite
    rw [finitePart_of_isFinite hfinite]
    cases x <;> rfl
  have hint (v : Option Int32) : (intPart v).bind Json.asInt? = v := by
    cases v with
    | none => rfl
    | some v => exact asInt?_toInt v
  have hinstant (i : Option Instant) :
      (instantPart i).bind toInstant? = i.bind carriedInstant := by
    cases i with
    | none => rfl
    | some i => exact toInstant?_millis i
  rw [toPosition, ofPosition, Json.members?]
  simp only [SortedMap.ofList, List.foldl_append, get?_foldl_member]
  simp [hpart, hint, hinstant, carriedPosition, SortedMap.get?]

theorem toBody_encode (bs : List UInt8) : toBody (.string (Base64.encode bs)) = .ok bs := by
  rw [toBody, Base64.decode_encode]
  rfl

theorem toPayload_ofPayload {p : Payload} (h : ∀ x ∈ doubles p, IsCarried x) :
    ∃ members, (ofPayload p).members? = some members ∧ toPayload members = .ok (carried p) := by
  obtain ⟨hmetrics, hposition⟩ := List.forall_mem_append.1 h
  have hsentOn : (instantPart p.timestamp).mapM toSentOn =
      .ok (p.timestamp.map carriedInstant) := by
    cases p.timestamp with
    | none => rfl
    | some i => exact congrArg (Except.map some) (toSentOn_millis i)
  have hpos : (p.position.map ofPosition).mapM toPosition =
      .ok (p.position.map carriedPosition) := by
    cases hp : p.position with
    | none => rfl
    | some pos =>
      have hdoubles : ∀ x ∈ positionDoubles pos, IsCarried x := fun x hx =>
        hposition x (by simpa [hp] using hx)
      exact congrArg (Except.map some) (toPosition_ofPosition hdoubles)
  have hbody : (p.body.map fun bs => Json.string (Base64.encode bs)).mapM toBody =
      .ok p.body := by
    cases p.body with
    | none => rfl
    | some bs => exact congrArg (Except.map some) (toBody_encode bs)
  obtain ⟨read, hread, hget⟩ := toMetrics_ofMetrics fun e he x hx =>
    hmetrics x (List.mem_flatMap.2 ⟨e, he, hx⟩)
  refine ⟨_, rfl, ?_⟩
  -- Each part is found under its own name, whichever of the others were left out.
  rw [toPayload]
  simp only [SortedMap.ofList, List.foldl_append, get?_foldl_member]
  simp [hsentOn, hpos, hread, hbody, SortedMap.get?]
  have htimestamp : (p.timestamp.map carriedInstant).join = p.timestamp.bind carriedInstant := by
    cases p.timestamp <;> rfl
  show Except.ok (⟨_, _, _, _⟩ : Payload) = _
  rw [htimestamp, hget]
  rfl

/-! ## 4. Reading the text -/

theorem readsBack_int {i : Int} (hmin : Int64.minValue.toInt ≤ i)
    (hmax : i ≤ Int64.maxValue.toInt) (depth : Nat) : Json.ReadsBack depth (.int i) :=
  .number (Json.readNumber_int hmin hmax)

theorem readsBack_double {x : Double} (h : IsCarried x) (depth : Nat) :
    Json.ReadsBack depth (.double x) := by
  obtain ⟨v, hread, hvalue⟩ := h.readNumber
  have hv : v = .double x := Json.readNumber_double h.isFinite hread hvalue
  exact .number (hv ▸ hread)

theorem readsBack_ofMetric {m : Metric} (h : ∀ x ∈ metricDoubles m, IsCarried x) (depth : Nat) :
    Json.ReadsBack depth (ofMetric m) := by
  cases m with
  | bool b => exact .bool b
  | string s => exact .string s
  | bytes bs => exact .string (Base64.encode bs)
  | long v => exact readsBack_int (Int64.minValue_le_toInt v) (Int64.toInt_le v) depth
  | int v => exact readsBack_int (int32_bounds v).1 (int32_bounds v).2 depth
  | double x =>
    have hx : IsCarried x := h x (by simp [metricDoubles])
    rw [ofMetric, Json.ofDouble, if_pos hx.isFinite]
    exact readsBack_double hx depth
  | float x =>
    have hx : IsCarried x.toDouble := h x.toDouble (by simp [metricDoubles])
    rw [ofMetric, Json.ofDouble, if_pos hx.isFinite]
    exact readsBack_double hx depth

theorem readsBack_member {name : String} {v : Option Json} {depth : Nat}
    (h : ∀ w ∈ v, Json.ReadsBack depth w) : ∀ m ∈ member name v, Json.ReadsBack depth m.2 := by
  intro m hm
  cases v with
  | none => cases hm
  | some w =>
    rw [List.mem_singleton.1 hm]
    exact h w rfl

theorem readsBack_instantPart (i : Option Instant) (depth : Nat) :
    ∀ w ∈ instantPart i, Json.ReadsBack depth w := by
  intro w hw
  obtain ⟨i, -, rfl⟩ := Option.map_eq_some_iff.1 hw
  exact readsBack_int i.millis_mem_long.1 i.millis_mem_long.2 depth

theorem readsBack_ofPosition {p : Position} (h : ∀ x ∈ positionDoubles p, IsCarried x)
    (depth : Nat) : Json.ReadsBack (depth + 1) (ofPosition p) := by
  have hpart (x : Option Double)
      (hx : x ∈ [p.latitude, p.longitude, p.altitude, p.precision, p.heading, p.speed]) :
      ∀ w ∈ finitePart x, Json.ReadsBack depth w := by
    intro w hw
    obtain ⟨y, hy, rfl⟩ := Option.map_eq_some_iff.1 hw
    have hcarried : IsCarried y :=
      h y (List.mem_filterMap.2 ⟨x, hx, (Option.filter_eq_some_iff.1 hy).1⟩)
    exact readsBack_double hcarried depth
  have hint (v : Option Int32) : ∀ w ∈ intPart v, Json.ReadsBack depth w := by
    intro w hw
    obtain ⟨v, -, rfl⟩ := Option.map_eq_some_iff.1 hw
    exact readsBack_int (int32_bounds v).1 (int32_bounds v).2 depth
  refine .object ?_
  simp only [List.forall_mem_append]
  have hinstant := readsBack_instantPart p.timestamp depth
  refine ⟨⟨⟨⟨⟨⟨⟨⟨?_, ?_⟩, ?_⟩, ?_⟩, ?_⟩, ?_⟩, ?_⟩, ?_⟩, ?_⟩
  all_goals refine readsBack_member ?_
  all_goals first
    | exact hinstant
    | exact hint _
    | exact hpart _ (by simp)

theorem readsBack_ofPayload {p : Payload} (h : ∀ x ∈ doubles p, IsCarried x) (depth : Nat) :
    Json.ReadsBack (depth + 2) (ofPayload p) := by
  obtain ⟨hmetrics, hposition⟩ := List.forall_mem_append.1 h
  have hbody : ∀ w ∈ p.body.map fun bs => Json.string (Base64.encode bs),
      Json.ReadsBack (depth + 1) w := by
    intro w hw
    obtain ⟨bs, -, rfl⟩ := Option.map_eq_some_iff.1 hw
    exact .string (Base64.encode bs)
  have hobject : ∀ w ∈ ofMetrics p.metrics, Json.ReadsBack (depth + 1) w := by
    intro w hw
    rw [ofMetrics] at hw
    split at hw
    · cases hw
    · cases hw
      refine .object fun m hm => ?_
      obtain ⟨e, he, rfl⟩ := List.mem_map.1 hm
      exact readsBack_ofMetric (fun x hx => hmetrics x (List.mem_flatMap.2 ⟨e, he, hx⟩)) depth
  have hpos : ∀ w ∈ p.position.map ofPosition, Json.ReadsBack (depth + 1) w := by
    intro w hw
    obtain ⟨pos, hpos, rfl⟩ := Option.map_eq_some_iff.1 hw
    exact readsBack_ofPosition (fun x hx => hposition x (by simpa [hpos] using hx)) depth
  refine .object ?_
  simp only [List.forall_mem_append]
  exact ⟨⟨⟨readsBack_member hbody, readsBack_member hobject⟩, readsBack_member hpos⟩,
    readsBack_member (readsBack_instantPart p.timestamp (depth + 1))⟩

/-- **The JSON form carries a payload.** -/
theorem decode_encode_of_isCarried (p : Payload) (h : ∀ x ∈ doubles p, IsCarried x) :
    decode (encode p) = .ok (carried p) := by
  obtain ⟨members, hmembers, hpayload⟩ := toPayload_ofPayload h
  have hread : Json.read (ofPayload p).write = some (ofPayload p) :=
    Json.read_write (readsBack_ofPayload h 125)
  rw [decode, encode, Utf8.ofBytes?_bytes, Option.bind_some, hread, Option.bind_some, hmembers]
  dsimp only
  rw [hpayload]
  rfl

/-- Every kind of metric under odd names, an empty body and a position. -/
def sample : Payload where
  timestamp := some ⟨1600000000, 987654321, by decide, by decide, by decide⟩
  position := some { latitude := some ⟨0x4046C00000000000⟩, status := some (-1) }
  metrics := .ofList [("say \"hi\"", .string "\\ \n é 😀"), ("\u0001", .bytes [0, 255]),
    ("least", .long Int64.minValue), ("level", .int (-7)), ("half", .float ⟨0x3F000000⟩),
    ("whole", .double ⟨0x4008000000000000⟩), ("on", .bool true), ("", .string "")]
  body := some []

theorem decode_encode_sample :
    (∀ x ∈ doubles sample, IsCarried x) ∧ decode (encode sample) = .ok (carried sample) := by
  have h : ∀ x ∈ doubles sample, IsCarried x := by
    have hdoubles : doubles sample =
        [⟨0x3FE0000000000000⟩, ⟨0x4008000000000000⟩, ⟨0x4046C00000000000⟩] := by
      decide +kernel
    have hcarried (x : Double) (hfinite : x.isFinite = true)
        (hread : ((Json.readNumber true (x.json?.getD "null").toList).bind fun r =>
          r.1.asDouble?.map fun y => (y, r.2)) = some (x, [])) : IsCarried x := by
      obtain ⟨⟨v, rest⟩, hv, hvalue⟩ := Option.bind_eq_some_iff.1 hread
      obtain ⟨y, hy, heq⟩ := Option.map_eq_some_iff.1 hvalue
      cases heq
      refine ⟨hfinite, v, ?_, hy⟩
      rw [Json.writeChars]
      exact hv
    rw [hdoubles]
    simp only [List.forall_mem_cons, List.not_mem_nil, false_implies, implies_true, and_true]
    exact ⟨hcarried _ (by decide +kernel) (by decide +kernel),
      hcarried _ (by decide +kernel) (by decide +kernel),
      hcarried _ (by decide +kernel) (by decide +kernel)⟩
  exact ⟨h, decode_encode_of_isCarried sample h⟩

end Payload.JsonForm

end Uplink
