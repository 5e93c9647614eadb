import Uplink.Proofs.Json.Doubles
import Uplink.Proofs.Payload.JsonForm

/-!
# Payloads whose JSON form is read

Everything that is written for a payload can be read again, except for a metric that is not a finite
number: it is written as null, which is no metric. Then nothing of the payload is read.
-/

namespace Uplink

open Number Time

namespace Payload.JsonForm

/-! ## 1. Values as they are read again -/

/-- A value that holds no others, as it is read again. -/
def reread : Json → Json
  | .double x => ((Json.readNumber true (Json.writeChars (.double x))).map (·.1)).getD .null
  | v => v

/-- The members of an object, or another value, as they are read again. -/
def rereadPart : Json → Json
  | .object members => .object (members.map fun m => (m.1, reread m.2))
  | v => reread v

/-- A payload as an object, as it is read again. -/
def rereadPayload (p : Payload) : Json :=
  .object (member "body" (p.body.map fun bs => .string (Base64.encode bs)) ++
    member "metrics" ((ofMetrics p.metrics).map rereadPart) ++
    member "position" ((p.position.map ofPosition).map rereadPart) ++
    member "sentOn" (instantPart p.timestamp))

theorem exists_reread_double {x : Double} (h : x.isFinite = true) :
    ∃ y, reread (.double x) = .double y ∧
      Json.readNumber true (Json.writeChars (.double x)) = some (.double y, []) := by
  obtain ⟨y, hy⟩ := Json.exists_readNumber_double h
  refine ⟨y, ?_, hy⟩
  rw [reread, hy]
  rfl

theorem readsAs_double {x : Double} (h : x.isFinite = true) (depth : Nat) :
    Json.ReadsAs depth (.double x) (reread (.double x)) := by
  obtain ⟨y, hy, hread⟩ := exists_reread_double h
  exact .number (hy ▸ hread)

theorem readsAs_ofMetric (m : Metric) (depth : Nat) :
    Json.ReadsAs depth (ofMetric m) (reread (ofMetric m)) := by
  have hdouble (x : Double) :
      Json.ReadsAs depth (Json.ofDouble x) (reread (Json.ofDouble x)) := by
    rw [Json.ofDouble]
    split
    · next h => exact readsAs_double h depth
    · exact .null
  cases m with
  | bool b => exact .bool b
  | string s => exact .string s
  | bytes bs => exact .string (Base64.encode bs)
  | long v => exact readsBack_int (Int64.minValue_le_toInt v) (Int64.toInt_le v) depth
  | int v => exact readsBack_int (int32_bounds v).1 (int32_bounds v).2 depth
  | double x => exact hdouble x
  | float x => exact hdouble x.toDouble

theorem readsAs_member {f : Json → Json} {name : String} {v : Option Json} {depth : Nat}
    (h : ∀ w ∈ v, Json.ReadsAs depth w (f w)) :
    ∀ m ∈ member name v, Json.ReadsAs depth m.2 (f m.2) := by
  intro m hm
  cases v with
  | none => cases hm
  | some w =>
    rw [List.mem_singleton.1 hm]
    exact h w rfl

theorem readsAs_finitePart (x : Option Double) (depth : Nat) :
    ∀ w ∈ finitePart x, Json.ReadsAs depth w (reread w) := by
  intro w hw
  obtain ⟨y, hy, rfl⟩ := Option.map_eq_some_iff.1 hw
  exact readsAs_double (Option.filter_eq_some_iff.1 hy).2 depth

theorem readsAs_intPart (v : Option Int32) (depth : Nat) :
    ∀ w ∈ intPart v, Json.ReadsAs depth w (reread w) := by
  intro w hw
  obtain ⟨v, -, rfl⟩ := Option.map_eq_some_iff.1 hw
  exact readsBack_int (int32_bounds v).1 (int32_bounds v).2 depth

theorem readsAs_instantPart (i : Option Instant) (depth : Nat) :
    ∀ w ∈ instantPart i, Json.ReadsAs depth w (reread w) := by
  intro w hw
  obtain ⟨i, hi, rfl⟩ := Option.map_eq_some_iff.1 hw
  exact readsBack_instantPart (some i) depth _ rfl

theorem readsAs_ofPosition (p : Position) (depth : Nat) :
    Json.ReadsAs (depth + 1) (ofPosition p) (rereadPart (ofPosition p)) := by
  refine .object ?_
  simp only [List.forall_mem_append]
  refine ⟨⟨⟨⟨⟨⟨⟨⟨?_, ?_⟩, ?_⟩, ?_⟩, ?_⟩, ?_⟩, ?_⟩, ?_⟩, ?_⟩
  all_goals refine readsAs_member ?_
  all_goals first
    | exact readsAs_finitePart _ depth
    | exact readsAs_intPart _ depth
    | exact readsAs_instantPart _ depth

/-- **Whatever is written for a payload is read.** -/
theorem readsAs_ofPayload (p : Payload) (depth : Nat) :
    Json.ReadsAs (depth + 2) (ofPayload p) (rereadPayload p) := by
  have hbody : ∀ w ∈ p.body.map fun bs => Json.string (Base64.encode bs),
      Json.ReadsAs (depth + 1) w (rereadPart w) := by
    intro w hw
    obtain ⟨bs, -, rfl⟩ := Option.map_eq_some_iff.1 hw
    exact .string (Base64.encode bs)
  have hmetrics : ∀ w ∈ ofMetrics p.metrics, Json.ReadsAs (depth + 1) w (rereadPart w) := by
    intro w hw
    rw [ofMetrics] at hw
    split at hw
    · cases hw
    · cases hw
      refine .object fun m hm => ?_
      obtain ⟨e, -, rfl⟩ := List.mem_map.1 hm
      exact readsAs_ofMetric e.2 depth
  have hposition : ∀ w ∈ p.position.map ofPosition, Json.ReadsAs (depth + 1) w (rereadPart w) := by
    intro w hw
    obtain ⟨pos, -, rfl⟩ := Option.map_eq_some_iff.1 hw
    exact readsAs_ofPosition pos depth
  have hsentOn : ∀ w ∈ instantPart p.timestamp, Json.ReadsAs (depth + 1) w (rereadPart w) := by
    intro w hw
    obtain ⟨i, -, rfl⟩ := Option.map_eq_some_iff.1 hw
    exact readsBack_int i.millis_mem_long.1 i.millis_mem_long.2 (depth + 1)
  -- The four parts are the members of the object.
  have hobject : Json.ReadsAs (depth + 2) (ofPayload p) (.object
      (((member "body" (p.body.map fun bs => .string (Base64.encode bs)) ++
        member "metrics" (ofMetrics p.metrics) ++ member "position" (p.position.map ofPosition) ++
        member "sentOn" (instantPart p.timestamp)).map fun m => (m.1, rereadPart m.2)))) := by
    refine .object ?_
    simp only [List.forall_mem_append]
    exact ⟨⟨⟨readsAs_member hbody, readsAs_member hmetrics⟩, readsAs_member hposition⟩,
      readsAs_member hsentOn⟩
  -- Text and integers are read as they are.
  have hmap (name : String) (v : Option Json) :
      ((member name v).map fun m => (m.1, rereadPart m.2)) = member name (v.map rereadPart) := by
    cases v <;> rfl
  have hsame (v : Option Json) (h : ∀ w ∈ v, rereadPart w = w) : v.map rereadPart = v := by
    cases v with
    | none => rfl
    | some w => exact congrArg some (h w rfl)
  rw [List.map_append, List.map_append, List.map_append, hmap, hmap, hmap, hmap,
    hsame (p.body.map _) (by simp +contextual [rereadPart, reread]),
    hsame (instantPart _) (by simp +contextual [instantPart, rereadPart, reread])] at hobject
  exact hobject

/-! ## 2. What becomes of the parts -/

def metricsDoubles (p : Payload) : List Double :=
  p.metrics.entries.flatMap fun e => metricDoubles e.2

/-- Null is no metric, and every other value that is written for one is. -/
theorem exists_toMetric_iff (name : String) (m : Metric) :
    (∃ r, toMetric name (reread (ofMetric m)) = .ok r) ↔
      ∀ x ∈ metricDoubles m, x.isFinite = true := by
  have hdouble (x : Double) :
      (∃ r, toMetric name (reread (Json.ofDouble x)) = .ok r) ↔ x.isFinite = true := by
    rw [Json.ofDouble]
    split
    · next h =>
      obtain ⟨y, hy, -⟩ := exists_reread_double h
      rw [hy]
      exact iff_of_true ⟨_, rfl⟩ h
    · next h =>
      refine iff_of_false ?_ h
      rintro ⟨r, ⟨⟩⟩
  have hothers (h : metricDoubles m = []) :
      (∃ r, toMetric name (reread (ofMetric m)) = .ok r) ↔
        ∀ x ∈ metricDoubles m, x.isFinite = true := by
    have hnone : ∀ x ∈ metricDoubles m, IsCarried x := by simp [h]
    refine iff_of_true ?_ (by simp [h])
    rw [show reread (ofMetric m) = ofMetric m by cases m <;> first | rfl | cases h]
    exact ⟨_, toMetric_ofMetric name hnone⟩
  cases m with
  | double x => exact (hdouble x).trans (by simp [metricDoubles])
  | float x => exact (hdouble x.toDouble).trans (by simp [metricDoubles])
  | _ => exact hothers rfl

theorem exists_map_iff {α β ε : Type} (f : α → β) (e : Except ε α) :
    (∃ r, e.map f = .ok r) ↔ ∃ r, e = .ok r := by
  cases e with
  | error fault => simp [Except.map]
  | ok a => simp [Except.map]

theorem exists_mapM_iff {α β ε : Type} (f : α → Except ε β) (list : List α) :
    (∃ r, list.mapM f = .ok r) ↔ ∀ a ∈ list, ∃ b, f a = .ok b := by
  induction list with
  | nil => exact iff_of_true ⟨[], rfl⟩ (by simp)
  | cons a list ih =>
    rw [List.forall_mem_cons, ← ih]
    constructor
    · rintro ⟨r, hr⟩
      obtain ⟨b, more, hb, hmore, rfl⟩ := Binary.mapM_cons_eq_ok_iff.1 hr
      exact ⟨⟨b, hb⟩, more, hmore⟩
    · rintro ⟨⟨b, hb⟩, more, hmore⟩
      exact ⟨b :: more, Binary.mapM_cons_eq_ok_iff.2 ⟨b, more, hb, hmore, rfl⟩⟩

theorem exists_toMetrics_iff (metrics : SortedMap Metric) :
    (∃ r, ((ofMetrics metrics).map rereadPart).mapM toMetrics = .ok r) ↔
      ∀ e ∈ metrics.entries, ∀ x ∈ metricDoubles e.2, x.isFinite = true := by
  rw [ofMetrics]
  split
  · next hempty =>
    refine iff_of_true ⟨none, rfl⟩ ?_
    rw [List.isEmpty_iff.1 hempty]
    simp
  · have hpart : rereadPart (.object (metrics.entries.map fun e => (e.1, ofMetric e.2))) =
        .object (metrics.mapValues fun m => reread (ofMetric m)).entries := by
      rw [rereadPart, List.map_map]
      rfl
    show (∃ r, (toMetrics (rereadPart (.object (metrics.entries.map fun e =>
      (e.1, ofMetric e.2))))).map some = .ok r) ↔ _
    rw [hpart, exists_map_iff, toMetrics, Json.members?, SortedMap.ofList_entries]
    dsimp only
    rw [exists_map_iff, exists_mapM_iff, SortedMap.mapValues, List.forall_mem_map]
    refine forall₂_congr fun e _ => ?_
    rw [exists_map_iff]
    exact exists_toMetric_iff e.1 e.2

theorem exists_toPosition (p : Position) : ∃ r, toPosition (rereadPart (ofPosition p)) = .ok r :=
  ⟨_, rfl⟩

/-- Time, position and body are always read, so that the metrics decide. -/
theorem toPayload_rereadPayload (p : Payload) :
    ∃ members position, (rereadPayload p).members? = some members ∧
      toPayload members =
        (((ofMetrics p.metrics).map rereadPart).mapM toMetrics).map fun read =>
          { timestamp := p.timestamp.bind carriedInstant, position, metrics := read.getD ∅
            body := p.body } := by
  have hsentOn : (instantPart p.timestamp).mapM toSentOn =
      .ok (p.timestamp.map carriedInstant) := by
    cases p.timestamp with
    | none => rfl
    | some i => exact congrArg (Except.map some) (toSentOn_millis i)
  have hbody : (p.body.map fun bs => Json.string (Base64.encode bs)).mapM toBody =
      .ok p.body := by
    cases p.body with
    | none => rfl
    | some bs => exact congrArg (Except.map some) (toBody_encode bs)
  have htimestamp : (p.timestamp.map carriedInstant).join = p.timestamp.bind carriedInstant := by
    cases p.timestamp <;> rfl
  obtain ⟨position, hposition⟩ :
      ∃ r, ((p.position.map ofPosition).map rereadPart).mapM toPosition = .ok r := by
    cases p.position with
    | none => exact ⟨none, rfl⟩
    | some pos =>
      obtain ⟨r, hr⟩ := exists_toPosition pos
      exact ⟨some r, congrArg (Except.map some) hr⟩
  refine ⟨_, position, rfl, ?_⟩
  -- Only the reading of the metrics is left open.
  rw [toPayload]
  generalize (ofMetrics p.metrics).map rereadPart = metrics,
    (p.position.map ofPosition).map rereadPart = positions at hposition ⊢
  simp only [SortedMap.ofList, List.foldl_append, get?_foldl_member]
  simp only [↓reduceIte, String.reduceEq, SortedMap.get?, SortedMap.entries_empty, List.find?_nil,
    Option.map_none, Option.or_none, hsentOn, hposition, hbody, bind_pure_comp, Except.map_ok]
  rw [← htimestamp]
  cases metrics.mapM toMetrics <;> rfl

theorem exists_toPayload_iff (p : Payload) :
    ∃ members, (rereadPayload p).members? = some members ∧
      ((∃ q, toPayload members = .ok q) ↔ ∀ x ∈ metricsDoubles p, x.isFinite = true) := by
  obtain ⟨members, position, hmembers, hpayload⟩ := toPayload_rereadPayload p
  have hdoubles : (∀ x ∈ metricsDoubles p, x.isFinite = true) ↔
      ∀ e ∈ p.metrics.entries, ∀ x ∈ metricDoubles e.2, x.isFinite = true := by
    simp only [metricsDoubles, List.mem_flatMap]
    constructor
    · exact fun h e he x hx => h x ⟨e, he, hx⟩
    · rintro h x ⟨e, he, hx⟩
      exact h e he x hx
  refine ⟨members, hmembers, ?_⟩
  rw [hpayload, exists_map_iff, hdoubles]
  exact exists_toMetrics_iff p.metrics

/-- A number whose text has its value is read as it was. -/
theorem reread_double_of_isCarried {x : Double} (h : IsCarried x) :
    reread (.double x) = .double x := by
  obtain ⟨v, hread, hvalue⟩ := h.readNumber
  obtain ⟨y, hy, hread'⟩ := exists_reread_double h.isFinite
  obtain rfl := Json.readNumber_double h.isFinite hread hvalue
  rw [hy]
  exact (Prod.mk.inj (Option.some.inj (hread'.symm.trans hread))).1

theorem reread_ofMetric {m : Metric} (h : ∀ x ∈ metricDoubles m, IsCarried x) :
    reread (ofMetric m) = ofMetric m := by
  have hdouble {x : Double} (hx : IsCarried x) :
      reread (Json.ofDouble x) = Json.ofDouble x := by
    rw [Json.ofDouble, if_pos hx.isFinite]
    exact reread_double_of_isCarried hx
  cases m with
  | double x => exact hdouble (h x (by simp [metricDoubles]))
  | float x => exact hdouble (h x.toDouble (by simp [metricDoubles]))
  | _ => rfl

theorem map_rereadPart_ofMetrics {metrics : SortedMap Metric}
    (h : ∀ e ∈ metrics.entries, ∀ x ∈ metricDoubles e.2, IsCarried x) :
    (ofMetrics metrics).map rereadPart = ofMetrics metrics := by
  rw [ofMetrics]
  split
  · rfl
  · rw [Option.map_some, rereadPart, List.map_map]
    refine congrArg (fun members => some (Json.object members)) (List.map_congr_left fun e he => ?_)
    exact congrArg (e.1, ·) (reread_ofMetric (h e he))

/-! ## 3. Reading the text -/

theorem decode_encode_of_members {p : Payload} {members : SortedMap Json}
    (h : (rereadPayload p).members? = some members) :
    decode (encode p) = (toPayload members).mapError .malformed := by
  have hread : Json.read (ofPayload p).write = some (rereadPayload p) :=
    Json.read_write_of_readsAs (readsAs_ofPayload p 125)
  rw [decode, encode, Utf8.ofBytes?_bytes, Option.bind_some, hread, Option.bind_some, h]

theorem decode_encode_eq (p : Payload) : ∃ members, (rereadPayload p).members? = some members ∧
    decode (encode p) = (toPayload members).mapError .malformed ∧
    ((∃ q, toPayload members = .ok q) ↔ ∀ x ∈ metricsDoubles p, x.isFinite = true) := by
  obtain ⟨members, hmembers, hpayload⟩ := exists_toPayload_iff p
  exact ⟨members, hmembers, decode_encode_of_members hmembers, hpayload⟩

/-- Where the numbers among the metrics are carried, all but the position is, whatever the position
has in it. -/
theorem exists_decode_encode_of_isCarried {p : Payload}
    (h : ∀ e ∈ p.metrics.entries, ∀ x ∈ metricDoubles e.2, IsCarried x) :
    ∃ position, decode (encode p) = .ok { carried p with position } := by
  obtain ⟨members, position, hmembers, hpayload⟩ := toPayload_rereadPayload p
  obtain ⟨read, hread, hget⟩ := toMetrics_ofMetrics h
  refine ⟨position, ?_⟩
  rw [decode_encode_of_members hmembers, hpayload, map_rereadPart_ofMetrics h, hread]
  show Except.ok (⟨_, _, _, _⟩ : Payload) = _
  rw [hget]
  rfl

/-- **What is written for a payload is read exactly if every number among its metrics is finite.** A
position may have parts that are not: they are left out. -/
theorem decode_encode_isOk_iff (p : Payload) :
    (∃ q, decode (encode p) = .ok q) ↔ ∀ x ∈ metricsDoubles p, x.isFinite = true := by
  obtain ⟨members, -, hdecode, hpayload⟩ := decode_encode_eq p
  rw [hdecode, ← hpayload]
  cases toPayload members with
  | error fault => exact iff_of_false (by rintro ⟨q, ⟨⟩⟩) (by rintro ⟨q, ⟨⟩⟩)
  | ok q => exact iff_of_true ⟨q, rfl⟩ ⟨q, rfl⟩

/-- One metric that is no number makes all others unreadable. -/
theorem not_decode_encode_of_nan :
    let p : Payload :=
      { metrics := .ofList [("level", .double .nan), ("temperature", .double ⟨0x4035800000000000⟩)] }
    ¬∃ q, decode (encode p) = .ok q := by
  intro p
  obtain ⟨members, -, hdecode, hpayload⟩ := decode_encode_eq p
  have hnan : ¬∀ x ∈ metricsDoubles p, x.isFinite = true := by decide +kernel
  rw [hdecode]
  rintro ⟨q, hq⟩
  cases hread : toPayload members with
  | error fault =>
    rw [hread] at hq
    cases hq
  | ok r => exact hnan (hpayload.1 ⟨r, hread⟩)

end Payload.JsonForm

end Uplink
