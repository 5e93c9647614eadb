import Uplink.Proofs.Gateway.Events

/-!
# After a gateway was shut down

A gateway that was shut down publishes nothing that applications ask for, answers no requests, sends
no certificates that were due later, and cannot be started. What it still does is what its transport
tells it to, what it was about to do when it was shut down, and what new subscribers or options ask
for while the transport is connected. These are exactly the events that disturb its silence.
-/

namespace Uplink.Gateway

variable {σ : Type}

/-! ## 1. Silence -/

/-- Something left the gateway: a message was handed to the transport, or a filter was subscribed
to. -/
def Note.isOutgoing : Note → Bool
  | .published .. | .subscribed .. => true
  | _ => false

def outgoing (g : Gateway σ) : List Note := g.notes.filter Note.isOutgoing

theorem Calm.outgoing {g g' : Gateway σ} (h : Calm false g g') : g'.outgoing = g.outgoing := by
  obtain ⟨new, hnew, hall⟩ := h.notes
  have hnone : new.filter Note.isOutgoing = [] := by
    refine List.filter_eq_nil_iff.2 fun n hn => ?_
    have htold := hall n hn
    cases n <;> first | exact Bool.false_ne_true | cases htold
  rw [Gateway.outgoing, hnew, List.filter_append, hnone, List.append_nil, Gateway.outgoing]

theorem Asks.outgoing {list : List (String × Bool)} {g g' : Gateway σ} (h : Asks list g g') :
    g'.outgoing = g.outgoing ↔ ∀ c ∈ list, c.2 = false := by
  obtain ⟨new, hnew, hmap⟩ := h.notes
  rw [Gateway.outgoing, hnew, List.filter_append, Gateway.outgoing, List.append_right_eq_self,
    List.filter_eq_nil_iff]
  have hiff (n : Note) (c : String × Bool) (hc : n.call? = some c) :
      n.isOutgoing = true ↔ c.2 = true := by
    cases n <;> cases hc <;> simp [Note.isOutgoing]
  constructor
  · intro h c hc
    obtain ⟨n, hn, hcall⟩ := List.mem_map.1 (hmap ▸ List.mem_map_of_mem hc)
    have hout := h n hn
    rw [hiff n c hcall, Bool.not_eq_true] at hout
    exact hout
  · intro h n hn hout
    obtain ⟨c, hc, hcall⟩ := List.mem_map.1 (hmap ▸ List.mem_map_of_mem hn)
    rw [hiff n c hcall.symm, h c hc] at hout
    cases hout

variable [Transport σ]

/-- Nothing leaves the gateway in a history, and it is never connected. -/
def IsSilent (g : Gateway σ) (events : List (Event σ)) : Prop :=
  ∀ before, before <+: events →
    (g.after before).outgoing = g.outgoing ∧ (g.after before).state ≠ .connected

theorem isSilent_nil (g : Gateway σ) : g.IsSilent [] ↔ g.state ≠ .connected := by
  constructor
  · exact fun h => (h [] List.nil_prefix).2
  · intro h before hb
    rw [List.prefix_nil.1 hb]
    exact ⟨rfl, h⟩

theorem isSilent_cons (g : Gateway σ) (e : Event σ) (events : List (Event σ)) :
    g.IsSilent (e :: events) ↔ g.state ≠ .connected ∧ (e.apply g).outgoing = g.outgoing ∧
      (e.apply g).IsSilent events := by
  constructor
  · intro h
    have hone := h [e] (by simp)
    refine ⟨(h [] List.nil_prefix).2, hone.1, fun before hb => ?_⟩
    obtain ⟨hout, hstate⟩ := h (e :: before) (List.cons_prefix_cons.2 ⟨rfl, hb⟩)
    exact ⟨hout.trans hone.1.symm, hstate⟩
  · rintro ⟨hstate, hout, h⟩ before hb
    cases before with
    | nil => exact ⟨rfl, hstate⟩
    | cons e' before =>
      obtain ⟨rfl, hrest⟩ := List.cons_prefix_cons.1 hb
      obtain ⟨hout', hstate'⟩ := h before hrest
      exact ⟨hout'.trans hout, hstate'⟩

/-- The transport can be closed now. -/
def closable (g : Gateway σ) : Bool :=
  g.isConnected && (Transport.beginClose g.transport).1.isOk

/-- There is something to subscribe to on a new connection. -/
def wantsFilters (g : Gateway σ) : Bool := g.desiredFilter.isSome || !g.subscriptions.isEmpty

/-- What an activity does in its turn makes the gateway break its silence: it is told of a new
connection, or goes on to set one up, or takes its leave and has an address for that. -/
def Activity.disturbs (g : Gateway σ) : Activity → Bool
  | .begins (.callback .established) => true
  | .begins (.callback .disconnecting) => places g.options .disconnect
  | .begins .disconnect | .begins .shutDown => g.closable && places g.options .disconnect
  | .waits hold (.reconcile _ :: _) => g.isOver hold && g.wantsFilters
  | _ => false

/-- An event makes a gateway that was shut down break its silence: the turn of an activity does, or,
while the transport is connected, a record of subscribers is new, or options that are accepted name
another filter for the gateway itself. -/
def Event.disturbs (g : Gateway σ) : Event σ → Bool
  | .turn strand => (g.activity strand).any (·.disturbs g)
  | .registerSubscriber r subscriber => (g.subscriptions.add r subscriber).1 && g.isConnected
  | .configure options =>
    (g.configure options).isOk && g.isConnected && options.defaultSubscriptions &&
      g.defaultFilter != some (Filter.ofGateway options)
  | _ => false

/-! ## 2. One event -/

theorem ofSteps_begun {g : Gateway σ} (hstop : g.stopping = true) (strand : Strand) (call : Call) :
    Deed.ofSteps (g.begun strand call).2.1 =
      match call with
      | .callback .established => .opens
      | .callback .disconnecting => .leaves
      | .disconnect | .shutDown => if g.closable then .leaves else .nothing
      | _ => .nothing := by
  -- There is a leave to take only while the link is up and lets itself be closed.
  have hdisconnect (g' : Gateway σ) (ht : g'.transport = g.transport) (more : List Step)
      (hmore : Deed.ofSteps more = .nothing) : Deed.ofSteps (g'.beginDisconnect.2.1 ++ more) =
        if g.closable then .leaves else .nothing := by
    unfold beginDisconnect closable isConnected
    rw [ht]
    cases Transport.isConnected g.transport with
    | false => exact hmore
    | true =>
      cases Transport.beginClose g.transport with
      | mk result transport =>
        cases result with
        | error e => exact hmore
        | ok _ => rfl
  cases call with
  | start | connect =>
    have hdrop : (g.drop strand).stopping = true := hstop
    rw [begun, beginCall, if_pos hdrop]
    rfl
  | disconnect =>
    have h := hdisconnect (g.drop strand) rfl [] rfl
    rw [List.append_nil] at h
    exact h
  | shutDown =>
    exact hdisconnect { g.drop strand with stopping := true, debouncer := g.debouncer.cancel } rfl
      [.closePool] rfl
  | publish => rfl
  | callback c => cases c <;> rfl

/-- A turn disturbs the silence by what it does to the connection. -/
theorem disturbs_turn {g : Gateway σ} (hstop : g.stopping = true) (strand : Strand) :
    (Event.turn (σ := σ) strand).disturbs g =
      match g.deed strand with
      | .opens => true
      | .leaves => places g.options .disconnect
      | .setsUp => g.wantsFilters
      | _ => false := by
  rw [Event.disturbs, deed]
  cases g.activity strand with
  | none => rfl
  | some a =>
    rw [Option.any_some]
    cases a with
    | begins call =>
      dsimp only
      rw [ofSteps_begun hstop]
      cases call with
      | start | connect | publish => rfl
      | disconnect | shutDown =>
        unfold Activity.disturbs
        cases g.closable <;> rfl
      | callback c => cases c <;> rfl
    | steps => rfl
    | waits hold rest =>
      cases rest with
      | nil => rfl
      | cons s rest =>
        cases s with
        | reconcile | closeTransport =>
          dsimp only [Activity.disturbs]
          cases g.isOver hold <;> rfl
        | _ => rfl

theorem outgoing_deliver_certificate (kind : CertificateKind) (g : Gateway σ) :
    (g.deliver (g.certificate kind) false).2.outgoing = g.outgoing ↔
      places g.options kind = false := by
  cases hplaces : places g.options kind with
  | true =>
    rw [deliver_certificate hplaces, outgoing, (handed_handTracked _ g).notes, List.filter_append]
    simp [outgoing, Note.isOutgoing]
  | false =>
    rw [deliver_certificate_of_not_places hplaces]
    simp

theorem reconciling_false_iff (isNew : Bool) (previous desired : Option String) :
    (∀ c ∈ reconciling isNew previous desired, c.2 = false) ↔
      desired = none ∨ isNew = false ∧ previous = desired := by
  cases desired with
  | none => simp [reconciling]
  | some filter => cases isNew <;> simp [reconciling]

/-- On a new connection nothing is subscribed to if nothing is wanted, and only then. -/
theorem outgoing_setUp (g : Gateway σ) :
    (g.reconcile true).resubscribe.outgoing = g.outgoing ↔ g.wantsFilters = false := by
  refine (asks_setUp g).outgoing.trans ?_
  rw [wantsFilters, List.forall_mem_append, reconciling_false_iff, Bool.or_eq_false_iff,
    Option.isSome_eq_false_iff, Option.isNone_iff_eq_none]
  have hrecords : (∀ c ∈ g.subscriptions.records.map fun r => (r.filter, true), c.2 = false) ↔
      (!g.subscriptions.isEmpty) = false := by
    cases hsubs : g.subscriptions with
    | nil => simp [Subscriptions.records]
    | cons r subs => simp [Subscriptions.records]
  rw [hrecords]
  simp

omit [Transport σ] in
theorem Calm.silent {g g' : Gateway σ} (h : Calm false g g') (hstate : g.state ≠ .connected) :
    g'.outgoing = g.outgoing ∧ g'.state ≠ .connected :=
  ⟨h.outgoing, fun h' => hstate (h.state h')⟩

omit [Transport σ] in
theorem Asks.silent_iff {list : List (String × Bool)} {g g' : Gateway σ} (h : Asks list g g')
    (hstate : g.state ≠ .connected) :
    (g'.outgoing = g.outgoing ∧ g'.state ≠ .connected) ↔ ∀ c ∈ list, c.2 = false := by
  have hstate' : g'.state ≠ .connected := by
    rw [h.state]
    exact hstate
  exact (and_iff_left hstate').trans h.outgoing

theorem silent_turn_iff {g : Gateway σ} (hs : g.Sound) (hstop : g.stopping = true)
    (hstate : g.state ≠ .connected) (strand : Strand) :
    ((g.turn strand).outgoing = g.outgoing ∧ (g.turn strand).state ≠ .connected) ↔
      (Event.turn (σ := σ) strand).disturbs g = false := by
  rw [disturbs_turn hstop]
  -- What the turn does to the connection decides. Only a certificate that has a place, and filters
  -- that are wanted, are sent.
  cases hdeed : g.deed strand with
  | nothing =>
    have h := steady_turn hs hdeed
    rw [hstop] at h
    exact iff_of_true (h.toCalm.silent hstate) rfl
  | opens =>
    obtain ⟨g₁, -, hstate₁, hsetUp⟩ := turn_opens hs hdeed
    have hconnected : (g.turn strand).state = .connected := by
      cases hsetUp with
      | waits _ h => exact h.trans hstate₁
      | done _ h => exact h.trans hstate₁
    exact iff_of_false (fun h => h.2 hconnected) (by simp)
  | leaves =>
    obtain ⟨g₀, hcalm₀, hcalm₁⟩ := turn_leaves hs hdeed
    dsimp only at hcalm₁ ⊢
    have hstop₁ : (g₀.deliver (g₀.certificate .disconnect) false).2.stopping = true :=
      (steady_deliver _ _ g₀).stopping (hcalm₀.stopping hstop)
    rw [hstop₁] at hcalm₁
    have hout : (g.turn strand).outgoing = g.outgoing ↔ places g.options .disconnect = false := by
      rw [Calm.outgoing hcalm₁, ← hcalm₀.outgoing, outgoing_deliver_certificate, hcalm₀.options]
    have hstate₁ : (g.turn strand).state ≠ .connected := fun h =>
      hstate (hcalm₀.state (state_deliver _ g₀ ▸ hcalm₁.state h))
    rw [← hout]
    exact ⟨And.left, fun h => ⟨h, hstate₁⟩⟩
  | setsUp =>
    obtain ⟨g₁, hcalm₀, hcalm₁⟩ := turn_setsUp hs hdeed
    rw [hcalm₀.stopping hstop] at hcalm₁
    have hwants : g₁.wantsFilters = g.wantsFilters := by
      rw [wantsFilters, wantsFilters, desiredFilter, desiredFilter, hcalm₀.options,
        hcalm₀.subscriptions]
    have hout : (g.turn strand).outgoing = g.outgoing ↔ g.wantsFilters = false := by
      rw [Calm.outgoing hcalm₁, ← hcalm₀.outgoing, outgoing_setUp, hwants]
    have hstate₁ : (g.turn strand).state ≠ .connected := fun h =>
      hstate (hcalm₀.state ((asks_setUp g₁).state ▸ hcalm₁.state h))
    dsimp only
    rw [← hout]
    exact ⟨And.left, fun h => ⟨h, hstate₁⟩⟩
  | closes =>
    have h := turn_closes hs hdeed
    rw [hstop] at h
    exact iff_of_true (h.silent hstate) rfl

theorem silent_configure_iff {g : Gateway σ} (hstate : g.state ≠ .connected) (options : Options) :
    (((Event.configure options).apply g).outgoing = g.outgoing ∧
        ((Event.configure options).apply g).state ≠ .connected) ↔
      (Event.configure (σ := σ) options).disturbs g = false := by
  rw [Event.apply, Event.disturbs]
  cases hok : g.configure options with
  | error e => exact iff_of_true ⟨rfl, hstate⟩ rfl
  | ok g' =>
    show (g'.outgoing = g.outgoing ∧ g'.state ≠ .connected) ↔ _
    rw [configure_eq_ok hok]
    cases hc : g.isConnected with
    | false => exact iff_of_true ⟨rfl, hstate⟩ (by simp)
    | true =>
      have hasks := asks_reconcile false (schedule .birth { g with options })
      rw [if_pos rfl]
      refine (hasks.silent_iff hstate).trans ?_
      rw [reconciling_false_iff]
      show desiredFilter { g with options } = none ∨
        false = false ∧ g.defaultFilter = desiredFilter { g with options } ↔ _
      rw [desiredFilter]
      cases options.defaultSubscriptions <;> simp [Except.isOk, Except.toBool]

/-- **Silence is kept by an event exactly if the event does not disturb it.** -/
theorem silent_apply_iff {g : Gateway σ} (hs : g.Sound) (hstop : g.stopping = true)
    (hstate : g.state ≠ .connected) (e : Event σ) :
    ((e.apply g).outgoing = g.outgoing ∧ (e.apply g).state ≠ .connected) ↔
      e.disturbs g = false := by
  cases e with
  | turn strand => exact silent_turn_iff hs hstop hstate strand
  | configure options => exact silent_configure_iff hstate options
  | registerSubscriber r subscriber =>
    obtain ⟨list, hlist, hasks⟩ := registerSubscriber_eq r subscriber g
    refine (hasks.silent_iff hstate).trans ?_
    rw [hlist, Event.disturbs]
    cases (g.subscriptions.add r subscriber).1 && g.isConnected <;> simp
  | unregisterSubscriber subscriber =>
    have hasks := unregisterSubscriber_eq subscriber g
    refine iff_of_true ((hasks.silent_iff hstate).2 fun c hc => ?_) rfl
    split at hc
    · obtain ⟨r, -, rfl⟩ := List.mem_map.1 hc
      rfl
    · cases hc
  | plan | ask | link | registerHandler | unregisterHandler | registerApplication
  | unregisterApplication | listen | platform | arrive | acknowledge =>
    refine iff_of_true (Calm.silent (Steady.toCalm ?_) hstate) rfl
    have h := fun e h => steady_apply hs (e := e) h
    rw [hstop] at h
    exact h _ rfl

/-! ## 3. Histories after a shutdown -/

/-- No event of a history disturbs the silence when it happens. -/
def isUndisturbed (g : Gateway σ) : List (Event σ) → Bool
  | [] => true
  | e :: events => !e.disturbs g && (e.apply g).isUndisturbed events

theorem isSilent_iff {g : Gateway σ} (hs : g.Sound) (hstop : g.stopping = true)
    (events : List (Event σ)) :
    g.IsSilent events ↔ g.state ≠ .connected ∧ g.isUndisturbed events = true := by
  induction events generalizing g with
  | nil => simp [isSilent_nil, isUndisturbed]
  | cons e events ih =>
    rw [isSilent_cons, ih (sound_apply hs e) (stopping_apply hstop e), isUndisturbed,
      Bool.and_eq_true, Bool.not_eq_true']
    refine and_congr_right fun hstate => ?_
    rw [← silent_apply_iff hs hstop hstate e, and_assoc]

/-- The first thing that a shutdown does is to stop the gateway. -/
theorem stopping_turn_shutDown {g : Gateway σ} (hs : g.Sound) {strand : Strand}
    (ha : g.activity strand = some (.begins .shutDown)) : (g.turn strand).stopping = true := by
  obtain ⟨-, -, -, -, hturn⟩ := turn_begins hs ha
  rw [hturn]
  refine (spares_run ..).stopping ?_
  exact (beginDisconnect_spec
    { g.drop strand with stopping := true, debouncer := g.debouncer.cancel }).1.stopping rfl

theorem stopping_after {g : Gateway σ} (hstop : g.stopping = true) (events : List (Event σ)) :
    (g.after events).stopping = true :=
  after_induction (motive := fun g => g.stopping = true) events hstop
    fun _ e h => stopping_apply h e

theorem activity_ask {caller : Caller} {call : Call} {g : Gateway σ}
    (h : g.isDone caller = true) :
    ((Event.ask caller call).apply g).activity (.call caller) = some (.begins call) := by
  rw [Event.apply, if_pos h]
  exact (activity_hold ..).trans (if_pos rfl)

/-- A caller that has asked for a shutdown and is done has been served. -/
theorem stopping_of_isDone {g : Gateway σ} (hs : g.Sound) {caller : Caller}
    (hfree : g.isDone caller = true) (during : List (Event σ))
    (hdone : (g.after (.ask caller .shutDown :: during)).isDone caller = true) :
    (g.after (.ask caller .shutDown :: during)).stopping = true := by
  rw [after_cons] at hdone ⊢
  have hbegins : (Event.apply (.ask caller .shutDown) g).activity (.call caller) =
      some (.begins .shutDown) := activity_ask hfree
  -- Until the caller's turn the shutdown is about to begin; from then on the gateway is stopping.
  obtain ⟨-, hstop | hbegins⟩ := after_induction
    (motive := fun g => g.Sound ∧
      (g.stopping = true ∨ g.activity (.call caller) = some (.begins .shutDown)))
    during ⟨sound_apply hs _, .inr hbegins⟩ fun g e hboth => by
      obtain ⟨hs, h⟩ := hboth
      refine ⟨sound_apply hs e, ?_⟩
      rcases h with hstop | hbegins
      · exact .inl (stopping_apply hstop e)
      · by_cases he : e = .turn (.call caller)
        · subst he
          exact .inl (stopping_turn_shutDown hs hbegins)
        · exact .inr (activity_apply hbegins he)
  · exact hstop
  · rw [isDone, Option.isNone_iff_eq_none] at hdone
    rw [activity, hdone] at hbegins
    cases hbegins

/-- **After a shutdown has returned, nothing leaves the gateway and it is never connected again,
exactly as long as it is not connected then and nothing happens that disturbs its silence.** -/
theorem isSilent_after_shutDown_iff {options : Options} {transport : σ} {device : Device}
    {clock : Clock} {verifier : Option (Topic → Payload → Bool)} {g : Gateway σ}
    (hcreate : create options transport device clock verifier = .ok g)
    (before during : List (Event σ)) (caller : Caller)
    (hfree : (g.after before).isDone caller = true)
    (hdone : (g.after (before ++ .ask caller .shutDown :: during)).isDone caller = true)
    (events : List (Event σ)) :
    let g' := g.after (before ++ .ask caller .shutDown :: during)
    g'.IsSilent events ↔ g'.state ≠ .connected ∧ g'.isUndisturbed events = true := by
  have hsound := sound_after (isNew_of_create hcreate).sound
  refine isSilent_iff (hsound _) ?_ events
  rw [after_append] at hdone ⊢
  exact stopping_of_isDone (hsound before) hfree during hdone

def startingUp : List (Event Loopback) :=
  [.ask none .start, .turn (.call none), .turn (.acknowledgement 0), .turn (.call none)]

def shuttingDown : List (Event Loopback) :=
  [.turn (.call none), .turn (.acknowledgement 1), .turn (.call none),
    .turn (.pool (.worker 0)), .turn (.pool (.worker 1)), .turn (.call none)]

/-- A gateway that was shut down cannot be started, and publishes nothing even if its transport comes
up by itself. -/
theorem isSilent_when_asked_to_start :
    (create {} {} {} .epoch none = .ok loopback ∧
      (loopback.after startingUp).isDone none = true ∧
      (loopback.after (startingUp ++ .ask none .shutDown :: shuttingDown)).isDone none = true) ∧
    (loopback.after (startingUp ++ .ask none .shutDown :: shuttingDown)).IsSilent
      [.ask none .start, .turn (.call none), .link { connected := true }, .ask none .connect,
        .turn (.call none), .ask none (.publish (.toApp "app" "topic" {})), .turn (.call none),
        .registerApplication "app", .platform (.packageInstalled "app"), .turn (.window 3)] :=
  have hfree : (loopback.after startingUp).isDone none = true := by decide +kernel
  have hdone : (loopback.after (startingUp ++ .ask none .shutDown :: shuttingDown)).isDone none =
      true := by decide +kernel
  ⟨⟨create_loopback, hfree, hdone⟩,
    (isSilent_after_shutDown_iff create_loopback startingUp shuttingDown none hfree hdone _).2
      ⟨by decide +kernel, by decide +kernel⟩⟩

/-- A gateway that was shut down is connected again when its transport tells it so. -/
theorem not_isSilent_when_told_of_connection :
    create {} {} {} .epoch none = .ok loopback ∧
      (loopback.after startingUp).isDone none = true ∧
      (loopback.after (startingUp ++ .ask none .shutDown :: shuttingDown)).isDone none = true ∧
      ¬(loopback.after (startingUp ++ .ask none .shutDown :: shuttingDown)).IsSilent
        [.link { connected := true, nextId := 3 }, .ask none (.callback .established),
          .turn (.call none)] := by
  refine ⟨create_loopback, by decide +kernel, by decide +kernel, fun h => ?_⟩
  exact (h _ List.prefix_rfl).2 (by decide +kernel)

end Uplink.Gateway
