import Uplink.Certificate
import Uplink.Proofs.Payload.Arrival

/-!
# What certificates tell

Births and lists of applications may go to one and the same topic, so that only their payloads tell
them apart. The module says how they are told apart where they arrive, and that what is read there
is what the certificate was made for.
-/

namespace Uplink.Certificate

/-! ## 1. Reading certificates -/

/-- The kind of a certificate and the applications that it lists, as its metrics tell. Only a birth
names a model, and a disconnect lists nothing. -/
def read (p : Payload) : CertificateKind × Option String :=
  let listed := p.string? "application_ids"
  (if (p.metric? "model_name").isSome then .birth
   else if listed.isSome then .appList
   else .disconnect, listed)

/-- The applications that a certificate is to list, one after the other. -/
def listed (apps : List String) : CertificateKind → Option String
  | .disconnect => none
  | _ => some (Levels.join "," apps)

/-- The times that certificates tell can be counted in milliseconds. -/
structure HasTimes (clock : Clock) (device : Device) : Prop where
  now : clock.now.HasMillis
  position : ∀ pos ∈ device.position, ∀ i ∈ pos.timestamp, i.HasMillis

/-! ## 2. Metrics of certificates -/

section Metrics

variable (clock : Clock) (o : Options) (device : Device) (apps : List String)

/-- The metrics of a certificate in the order in which they are added. -/
def metrics : CertificateKind → List (String × Metric)
  | .birth => common clock device ++ inventory device.profile ++ applications o apps ++
      [("payload_encoding", .string o.encoding.name)] ++ modemMetrics (device.modem.getD {})
  | .appList => common clock device ++ applications o apps
  | .disconnect => common clock device

theorem payload_eq (kind : CertificateKind) :
    payload clock o device apps kind =
      { (Payload.stamped clock.now).addAll (metrics clock o device apps kind) with
        position := if kind = .birth then device.position else none } := by
  cases kind with
  | birth => rfl
  | appList | disconnect =>
    rw [Payload.addAll_eq]
    rw [payload, Payload.addAll_eq]
    rfl

theorem metric?_payload (kind : CertificateKind) (name : String) :
    (payload clock o device apps kind).metric? name =
      ((Payload.stamped clock.now).addAll (metrics clock o device apps kind)).metric? name := by
  rw [payload_eq]
  rfl

/-- A certificate that lists applications names them one after the other. -/
theorem metric?_applications {kind : CertificateKind} (h : kind ≠ .disconnect) :
    (payload clock o device apps kind).metric? "application_ids" =
      some (.string (Levels.join "," apps)) := by
  rw [metric?_payload]
  cases kind with
  | birth =>
    let more := ("accept_encoding", .string (acceptEncoding o)) ::
      ("payload_encoding", .string o.encoding.name) :: modemMetrics (device.modem.getD {})
    have hmore : ∀ m ∈ more, m.1 ≠ "application_ids" := by simp [more, modemMetrics]
    have hlist : metrics clock o device apps .birth =
        (common clock device ++ inventory device.profile) ++
          ("application_ids", .string (Levels.join "," apps)) :: more := by
      simp only [metrics, applications, List.append_assoc, List.cons_append, List.nil_append, more]
    rw [hlist]
    exact Payload.metric?_addAll _ (common clock device ++ inventory device.profile) _ _ hmore
  | appList =>
    have hmore : ∀ m ∈ [("accept_encoding", Metric.string (acceptEncoding o))],
        m.1 ≠ "application_ids" := by simp
    exact Payload.metric?_addAll _ (common clock device) _ _ hmore
  | disconnect => exact absurd rfl h

theorem metric?_model :
    (payload clock o device apps .birth).metric? "model_name" =
      some (text device.profile.modelName) := by
  let more := (inventory device.profile).tail ++ applications o apps ++
    [("payload_encoding", .string o.encoding.name)] ++ modemMetrics (device.modem.getD {})
  have hmore : ∀ m ∈ more, m.1 ≠ "model_name" := by
    simp [more, inventory, applications, modemMetrics, or_imp, forall_and]
  have hlist : metrics clock o device apps .birth =
      common clock device ++ ("model_name", text device.profile.modelName) :: more := by
    simp only [metrics, inventory, List.append_assoc, List.cons_append, List.nil_append,
      List.tail_cons, more]
  rw [metric?_payload, hlist]
  exact Payload.metric?_addAll _ (common clock device) _ _ hmore

theorem metric?_model_eq_none {kind : CertificateKind} (h : kind ≠ .birth) :
    (payload clock o device apps kind).metric? "model_name" = none := by
  rw [metric?_payload, Payload.metric?_addAll_of_forall_ne]
  · rfl
  · cases kind with
    | birth => exact absurd rfl h
    | appList => simp [metrics, common, applications]
    | disconnect => simp [metrics, common]

theorem metric?_applications_eq_none :
    (payload clock o device apps .disconnect).metric? "application_ids" = none := by
  rw [metric?_payload, Payload.metric?_addAll_of_forall_ne]
  · rfl
  · simp [metrics, common]

/-- Certificates have texts and integers in them, and no numbers with a fraction. -/
theorem metricDoubles_payload (kind : CertificateKind) :
    ∀ e ∈ (payload clock o device apps kind).metrics.entries,
      Payload.JsonForm.metricDoubles e.2 = [] := by
  have hmetrics : ∀ m ∈ metrics clock o device apps kind,
      Payload.JsonForm.metricDoubles m.2 = [] := by
    have htext (v : Option String) : Payload.JsonForm.metricDoubles (text v) = [] := rfl
    have hstring (s : String) : Payload.JsonForm.metricDoubles (.string s) = [] := rfl
    have hint (v : Int32) : Payload.JsonForm.metricDoubles (.int v) = [] := rfl
    have hlong (v : Int64) : Payload.JsonForm.metricDoubles (.long v) = [] := rfl
    have hrssi (m : Modem) : Payload.JsonForm.metricDoubles
        ((m.rssi.map Metric.int).getD (text none)) = [] := by
      cases m.rssi <;> rfl
    cases kind <;>
      simp [metrics, common, inventory, applications, modemMetrics, or_imp, forall_and, htext,
        hstring, hint, hlong, hrssi]
  intro e he
  rw [payload_eq, Payload.addAll_eq] at he
  rcases SortedMap.mem_of_mem_foldl_insert he with he | he
  · exact hmetrics e he
  · cases he

end Metrics

/-! ## 3. Certificates that arrive -/

variable {clock : Clock} {device : Device}

theorem bears_payload (h : HasTimes clock device) (e : Encoding) (made : Options)
    (apps : List String) (kind : CertificateKind) :
    e.Bears (payload clock made device apps kind) := by
  cases e with
  | binary =>
    rw [payload_eq, Payload.addAll_eq]
    constructor
    · rintro i ⟨⟩
      exact h.now
    · intro pos hpos
      dsimp only at hpos
      split at hpos
      · exact h.position pos hpos
      · cases hpos
  | json =>
    intro e he x hx
    rw [metricDoubles_payload clock made device apps kind e he] at hx
    cases hx

/-- **A certificate that arrives is read as what it is.** Whatever the options are with which it is
sent, its kind and the applications that it lists can be read from the bytes of the message. -/
theorem read_decodePayload {o o' : Options} (ho : o'.encoding = o.encoding)
    (h : HasTimes clock device) (made : Options) (apps : List String) (kind : CertificateKind)
    (hsize : o.encoding.Measures (o.encodePayload (payload clock made device apps kind))) :
    read (o'.decodePayload (o.encodePayload (payload clock made device apps kind))) =
      (kind, listed apps kind) := by
  have harrives := Options.arrives_decodePayload ho (bears_payload h o.encoding made apps kind)
    hsize
  generalize o'.decodePayload (o.encodePayload (payload clock made device apps kind)) = q
    at harrives
  cases kind with
  | birth =>
    have hlisted := harrives.string? (metric?_applications clock made device apps (by decide))
    have hmodel := harrives.string? (metric?_model clock made device apps)
    have hsome : (q.metric? "model_name").isSome = true := by
      cases hm : q.metric? "model_name" with
      | none =>
        rw [Payload.string?, hm] at hmodel
        cases hmodel
      | some m => rfl
    rw [read, hlisted, if_pos hsome]
    rfl
  | appList =>
    have hlisted := harrives.string? (metric?_applications clock made device apps (by decide))
    have hkind : CertificateKind.appList ≠ .birth := by decide
    have hmodel := harrives.metric?_eq_none (metric?_model_eq_none clock made device apps hkind)
    rw [read, hlisted, hmodel]
    rfl
  | disconnect =>
    have hlisted := harrives.metric?_eq_none (metric?_applications_eq_none clock made device apps)
    have hkind : CertificateKind.disconnect ≠ .birth := by decide
    have hmodel := harrives.metric?_eq_none (metric?_model_eq_none clock made device apps hkind)
    rw [read, hmodel, Payload.string?, hlisted]
    rfl

end Uplink.Certificate
