import Uplink.Gateway.Inbound
import Uplink.Proofs.Gateway.Events
import Uplink.Proofs.Subscription.Recipients
import Uplink.Proofs.Topic.Reading

/-!
# Where a message that comes in goes

A message that the gateway refuses does nothing. Any other message goes once to each of those it is
for, and at most one job is made of it. Subscribers that fail over a message change nothing for the
others.
-/

namespace Uplink.Gateway

variable {σ : Type}

/-! ## 1. Subscribers that fail -/

/-- Calls that may fail. What was done before a failure stays done. -/
abbrev Calls (σ : Type) : Type → Type := ExceptT Unit (StateM (Gateway σ))

/-- Call a subscriber, which has the message before it may fail over it. -/
def callSubscriber (fails : String → Bool) (message : Received) (name : String) : Calls σ Unit := do
  modify (note (.told name message))
  if fails name then throw ()

/-- A failure ends with the call that failed. -/
def contained (call : Calls σ Unit) : Calls σ Unit := tryCatch call fun _ => pure ()

/-- A message comes in, and some of its subscribers fail over it. -/
def arriveAmong (fails : String → Bool) (topic : String) (bytes : List UInt8) (qos : Qos)
    (retained : Bool) : Calls σ Unit := do
  let g ← get
  let topic := Topic.parse g.options topic
  let payload := g.options.decodePayload bytes
  if g.admits topic payload then
    let isRequest := topic.isControl g.options && !topic.isReply g.options
    modify fun g => if isRequest then g.dispatch topic payload else g
    let g ← get
    forM (g.subscriptions.recipients g.options topic.full) fun name =>
      contained (callSubscriber fails ⟨topic, payload, qos, retained⟩ name)

theorem run_contained (fails : String → Bool) (message : Received) (name : String) (g : Gateway σ) :
    (contained (callSubscriber fails message name)).run.run g =
      (Except.ok (), g.note (.told name message)) := by
  rw [contained, callSubscriber]
  cases fails name <;> rfl

theorem run_forM_contained (fails : String → Bool) (message : Received) (names : List String)
    (g : Gateway σ) :
    (forM names fun name => contained (callSubscriber fails message name)).run.run g =
      (Except.ok (), names.foldl (fun g name => g.note (.told name message)) g) := by
  induction names generalizing g with
  | nil => rfl
  | cons name names ih =>
    have h := run_contained fails message name g
    rw [List.forM_cons, ExceptT.run_bind, StateT.run_bind, h]
    exact ih _

theorem run_arriveAmong (fails : String → Bool) (topic : String) (bytes : List UInt8) (qos : Qos)
    (retained : Bool) (g : Gateway σ) :
    (arriveAmong fails topic bytes qos retained).run.run g =
      (Except.ok (), g.arrive topic bytes qos retained) := by
  unfold arriveAmong arrive
  rw [ExceptT.run_bind, StateT.run_bind]
  -- What the gateway is when the message comes in decides, on both sides.
  change StateT.run (ExceptT.run (if _ then _ else _)) g = _
  dsimp only
  split
  · exact run_forM_contained ..
  · rfl

/-! ## 2. What is refused, and what a job is made of -/

/-- A message is refused if the broker reports on itself, or if it is in the realm of control and
does not pass for what it says it is. -/
def Refuses (topic : Topic) (payload : Payload) (g : Gateway σ) : Prop :=
  topic.app = "MQTT" ∨ topic.app = "BA" ∨
    topic.isControl g.options = true ∧
      ∃ verify, g.verifier = some verify ∧ verify topic payload = false

theorem admits_iff {topic : Topic} {payload : Payload} {g : Gateway σ} :
    g.admits topic payload = true ↔ ¬g.Refuses topic payload := by
  have hbroker : brokerApps.contains topic.app = true ↔ topic.app = "MQTT" ∨ topic.app = "BA" := by
    simp [brokerApps]
  rw [admits, Refuses, ← or_assoc, not_or, ← hbroker]
  cases topic.isControl g.options <;> cases g.verifier <;> simp

/-- The job that a message makes. The message has to be a request and no answer to one, and its
application must have a handler. -/
def jobFor? (topic : Topic) (payload : Payload) (g : Gateway σ) : Option (List Step) :=
  if topic.isControl g.options && !topic.isReply g.options then
    (g.handlers.get? topic.app).map fun handler =>
      requestSteps g.clock handler (Request.Context.of g.options topic payload) payload
  else none

/-- What is to be done for a request: the handler that is registered for its application is asked
once, with what the message says of the request and with its payload. It takes its time, and then
its answer goes out, if it has one and it is known who asked. -/
structure IsJobFor (topic : Topic) (payload : Payload) (g : Gateway σ) (job : List Step) :
    Prop where
  isControl : topic.isControl g.options = true
  isReply : topic.isReply g.options = false
  asks : let context := Request.Context.of g.options topic payload
    ∃ (handler : Handler) (reply? : Option Message),
      g.handlers.get? topic.app = some handler ∧
      job = .note (.requested handler.name context payload) :: .pause handler.delayMs ::
        (reply?.map .publish).toList ∧
      ∀ reply, reply? = some reply ↔ ∃ outcome, handler.answer context payload = some outcome ∧
        Request.reply g.clock.now context outcome = some reply

theorem jobFor?_eq_some_iff {topic : Topic} {payload : Payload} {g : Gateway σ}
    {job : List Step} : g.jobFor? topic payload = some job ↔ g.IsJobFor topic payload job := by
  rw [jobFor?]
  constructor
  · intro h
    split at h
    · next hrequest =>
      obtain ⟨hcontrol, hreply⟩ := Bool.and_eq_true_iff.1 hrequest
      obtain ⟨handler, hhandler, rfl⟩ := Option.map_eq_some_iff.1 h
      exact ⟨hcontrol, Bool.not_eq_eq_eq_not.1 hreply, handler, _, hhandler, rfl,
        fun _ => Option.bind_eq_some_iff⟩
    · cases h
  · rintro ⟨hcontrol, hreply, handler, reply?, hhandler, rfl, hreplies⟩
    have heq : reply? = (handler.answer (.of g.options topic payload) payload).bind
        (Request.reply g.clock.now (.of g.options topic payload)) :=
      Option.ext fun reply => (hreplies reply).trans Option.bind_eq_some_iff.symm
    rw [if_pos (by rw [hcontrol, hreply]; rfl), hhandler, Option.map_some, heq]
    rfl

end Gateway

/-- The pool after a job was submitted, which it may refuse. -/
def Pool.offer {κ : Type} (p : Pool κ) (job : κ) : Pool κ :=
  match p.submit job with
  | .ok (_, p) => p
  | .error _ => p

/-- A job goes to the end of the queue. It is refused by a pool that is shut down or full. -/
theorem Pool.offer_eq {κ : Type} (p : Pool κ) (job : κ) :
    p.offer job = { p with queue :=
      p.queue ++ if p.closed ∨ queueDepth * p.size ≤ p.queue.length then [] else [job] } := by
  rw [offer, submit]
  by_cases hclosed : p.closed = true
  · rw [if_pos hclosed, if_pos (.inl hclosed), List.append_nil]
  · rw [if_neg hclosed]
    by_cases hfull : queueDepth * p.size ≤ p.queue.length
    · rw [if_pos hfull, if_pos (.inr hfull), List.append_nil]
    · rw [if_neg hfull, if_neg (not_or.2 ⟨hclosed, hfull⟩)]

namespace Gateway

theorem request_eq (topic : Topic) (payload : Payload) (g : Gateway σ) :
    ∃ agenda, (if topic.isControl g.options && !topic.isReply g.options then
        g.dispatch topic payload else g) =
      { g with pool := (g.jobFor? topic payload).elim g.pool g.pool.offer, agenda } := by
  rw [jobFor?]
  split
  · rw [dispatch]
    cases g.handlers.get? topic.app with
    | none => exact ⟨g.agenda, rfl⟩
    | some handler =>
      rw [Option.map_some, Option.elim_some, Pool.offer]
      dsimp only
      cases g.pool.submit _ with
      | error _ => exact ⟨g.agenda, rfl⟩
      | ok result => exact ⟨_, rfl⟩
  · exact ⟨g.agenda, rfl⟩

/-- **What a message that comes in does.** One that is refused does nothing. Any other is given
once to each of those it is for and to nobody else, in the order of the records, whoever fails over
it, and the job that it makes is submitted once: that of asking the handler of its application, if
it is a request and there is one. Nothing else changes but the agenda. -/
theorem arrive_routes (fails : String → Bool) (text : String) (bytes : List UInt8) (qos : Qos)
    (retained : Bool) (g : Gateway σ) :
    let topic := Topic.parse g.options text
    let payload := g.options.decodePayload bytes
    let g' := g.arrive text bytes qos retained
    (arriveAmong fails text bytes qos retained).run.run g = (Except.ok (), g') ∧
    (g.Refuses topic payload → g' = g) ∧
    (¬g.Refuses topic payload → ∃ names,
      Subscriptions.IsAudience g.options text g.subscriptions names ∧ names.Nodup ∧
      g' = { g with
        notes := g.notes ++ names.map fun name => .told name ⟨topic, payload, qos, retained⟩
        pool := (g.jobFor? topic payload).elim g.pool g.pool.offer
        agenda := g'.agenda }) ∧
    ∀ job, g.jobFor? topic payload = some job ↔ g.IsJobFor topic payload job := by
  intro topic payload g'
  refine ⟨run_arriveAmong .., fun hrefused => ?_, fun hadmitted => ?_,
    fun _ => jobFor?_eq_some_iff⟩
  · exact if_neg fun hadmits => admits_iff.1 hadmits hrefused
  · obtain ⟨agenda, hrequest⟩ := request_eq topic payload g
    have haudience := Subscriptions.isAudience_recipients g.options text g.subscriptions
    have harrive : g' = (Subscriptions.recipients g.options text g.subscriptions).foldl
        (fun g name => g.note (.told name ⟨topic, payload, qos, retained⟩))
        { g with pool := (g.jobFor? topic payload).elim g.pool g.pool.offer, agenda } := by
      refine (if_pos (admits_iff.2 hadmitted)).trans ?_
      rw [hrequest, Topic.full_parse]
    refine ⟨_, haudience, haudience.nodup, ?_⟩
    rw [harrive, foldl_note]

/-- A request that passes goes once to each subscriber, although one of them has two records and
fails, and makes one job, in which the handler is asked, but does not answer. One that does not
pass comes to nothing. -/
theorem arrive_routes_checked :
    let handler : Handler := { name := "configuration", answer := fun _ _ => none }
    let g : Gateway Loopback := { loopback with
      verifier := some fun topic _ => topic.client == "gw-01"
      handlers := SortedMap.empty.insert "CONF" handler
      subscriptions :=
        [(⟨"$EDC/#account-name/+/#", .atMostOnce⟩, ["x"]), (⟨"#", .atLeastOnce⟩, ["y", "x"])] }
    let text := "$EDC/acme/gw-01/CONF/GET/1"
    let topic := Topic.parse g.options text
    let payload := g.options.decodePayload []
    let message : Received := ⟨topic, payload, .atLeastOnce, false⟩
    (∃ g', (arriveAmong (· == "x") text [] .atLeastOnce false).run.run g = (Except.ok (), g') ∧
      g'.notes = [.told "x" message, .told "y" message] ∧
      g'.pool.queue = [[.note (.requested "configuration" (.of g.options topic payload) payload),
        .pause 0]]) ∧
    g.arrive "$EDC/acme/gw-02/CONF/GET/1" [] .atLeastOnce false = g := by
  intro handler g text topic payload message
  obtain ⟨hrun, -, hroutes, hjobs⟩ := arrive_routes (· == "x") text [] .atLeastOnce false g
  obtain ⟨names, haudience, -, hg⟩ := hroutes (admits_iff.1 (by decide))
  obtain ⟨-, hrefused, -⟩ :=
    arrive_routes (· == "x") "$EDC/acme/gw-02/CONF/GET/1" [] .atLeastOnce false g
  have hnames : names = ["x", "y"] := (Subscriptions.isAudience_iff.1 haudience).trans (by decide)
  have hhandler : g.handlers.get? topic.app = some handler := by
    have happ : topic.app = "CONF" := by decide
    rw [happ, SortedMap.get?_insert, if_pos rfl]
  have hjob := (hjobs _).2 ⟨by decide, by decide, handler, none, hhandler, rfl, by simp [handler]⟩
  refine ⟨⟨_, hrun, ?_, ?_⟩, hrefused (.inr (.inr ⟨by decide, _, rfl, by decide⟩))⟩
  · rw [hg, hnames]
    rfl
  · rw [hg, hjob, Option.elim_some, Pool.offer_eq]
    rfl

end Uplink.Gateway
