import Uplink.Proofs.Gateway.Outlook
import Uplink.Proofs.Gateway.Shutdown
import Uplink.Proofs.Gateway.Upkeep

/-!
# What is refused changes nothing

A gateway refuses options that are not in order or that ask for other workers, messages that go
nowhere or that its transport does not take, and after it was shut down all messages and to be
started. Who asked gets an answer, and everything else stays as it was. Only a message that the
transport does not take has left something behind meanwhile: a ticket, which is given back.
-/

namespace Uplink.Gateway

variable {σ : Type}

/-! ## 1. Answers -/

/-- A caller got its answer, and nothing else has changed. -/
structure OnlyTells (caller : Caller) (result : Result) (g g' : Gateway σ) : Prop where
  same : g' = { g with
    activities := g'.activities, agenda := g'.agenda, finished := g'.finished }
  finished : g'.finished = g.finished ++ [(caller, result)]
  /-- The caller waits no longer. What others are about stays as it was. -/
  activity : ∀ strand,
    g'.activity strand = if strand = .call caller then none else g.activity strand
  agenda : g'.agenda = g.agenda.silence (.call caller)

theorem onlyTells_finish (caller : Caller) (result : Result) (g : Gateway σ) :
    OnlyTells caller result g ((g.drop (.call caller)).finish (.call caller) result) := by
  refine ⟨rfl, rfl, fun strand => ?_, ?_⟩
  · show ((g.drop (.call caller)).drop (.call caller)).activity strand = _
    rw [activity_drop, activity_drop]
    split <;> rfl
  · -- The caller's alarms are dropped twice.
    show (g.agenda.silence (.call caller)).silence (.call caller) = _
    simp [Agenda.silence]

variable [Transport σ]

theorem turn_publish {g g' : Gateway σ} {caller : Caller} {message : Message} {result : Result}
    (ha : g.activity (.call caller) = some (.begins (.publish message)))
    (htake : (g.drop (.call caller)).take (.publish message) = (.goesOn result, g')) :
    g.turn (.call caller) = g'.finish (.call caller) result := by
  rw [turn_eq rfl, ha]
  show (g.drop (.call caller)).run (.call caller) [.publish message] nothing = _
  rw [run, htake]
  rfl

/-! ## 2. Messages that are not taken -/

/-- A tracked message is given up: between a ticket being taken and the message being handed over,
and then until the answer is heard, anything may happen. -/
def giveUp (message : Outbound) (during behind : List (Event σ)) (g : Gateway σ) : Gateway σ :=
  let armed := g.tracker.arm message.qos
  let g := (((g.track armed.2).after during).hand message).2.after behind
  g.track (g.tracker.disarm armed.1)

theorem hand_of_error {message : Outbound} {e : LinkError} {g : Gateway σ}
    (h : (Transport.publish message g.transport).1 = .error e) :
    (g.hand message).1 = .error e := by
  unfold hand
  dsimp only
  rw [h]

/-- A message that is not taken is given up, with nothing happening meanwhile. -/
theorem handTracked_eq_giveUp {message : Outbound} {e : LinkError} {g : Gateway σ}
    (h : (Transport.publish message g.transport).1 = .error e) :
    g.handTracked message = (.goesOn (.error (.transport e)), g.giveUp message [] []) := by
  have hhand : ((g.track (g.tracker.arm message.qos).2).hand message).1 = .error e :=
    hand_of_error h
  unfold handTracked giveUp
  dsimp only [after_nil]
  cases heq : (g.track (g.tracker.arm message.qos).2).hand message with
  | mk result g' =>
    rw [heq] at hhand
    cases hhand
    rfl

/-- **A ticket of a message that is given up is spent, whatever happens meanwhile and later.** -/
theorem isSpent_giveUp (message : Outbound) (during behind later : List (Event σ))
    (g : Gateway σ) :
    ((g.giveUp message during behind).after later).tracker.IsSpent
      (g.tracker.arm message.qos).1 := by
  let g₁ := (g.track (g.tracker.arm message.qos).2).after during
  let g₂ := (g₁.hand message).2
  have hduring : (g.tracker.arm message.qos).2.Renews g₁.tracker :=
    renews_after (g.track (g.tracker.arm message.qos).2) during
  have hhand : g₂.tracker = g₁.tracker := tracker_hand g₁ message
  have hbehind : g₂.tracker.Renews (g₂.after behind).tracker := renews_after g₂ behind
  rw [hhand] at hbehind
  -- No event puts the ticket to use, for only its own publisher could.
  have hspent : (g.giveUp message during behind).tracker.IsSpent (g.tracker.arm message.qos).1 :=
    Delivery.Tracker.isSpent_disarm (hduring.trans hbehind)
  exact hspent.renews (renews_after _ later)

/-- Whatever tickets were taken from one gateway to the other are spent, whatever happens next. -/
def SpendsTickets (g g' : Gateway σ) : Prop :=
  ∀ (ticket : Delivery.Ticket) (later : List (Event σ)),
    g.tracker.generations < ticket.generation → ticket.generation ≤ g'.tracker.generations →
      (g'.after later).tracker.IsSpent ticket

theorem spendsTickets_giveUp (message : Outbound) (g : Gateway σ) :
    SpendsTickets g (g.giveUp message [] []) := by
  intro ticket later hnew hold
  have htracker : (g.giveUp message [] []).tracker =
      (g.tracker.arm message.qos).2.disarm (g.tracker.arm message.qos).1 := by
    show ((g.track (g.tracker.arm message.qos).2).hand message).2.tracker.disarm _ = _
    rw [tracker_hand]
    rfl
  rw [htracker, Delivery.Tracker.generations_disarm] at hold
  -- Between the two only one ticket was taken.
  have hticket : ticket = (g.tracker.arm message.qos).1 :=
    congrArg Delivery.Ticket.mk (Nat.le_antisymm hold hnew)
  rw [hticket]
  exact isSpent_giveUp message [] [] later g

theorem spendsTickets_of_same {g g' : Gateway σ}
    (h : g'.tracker.generations = g.tracker.generations) : SpendsTickets g g' := by
  intro ticket later hnew hold
  omega

theorem deliver_of_nowhere {message : Message} {fault : DestinationFault} {g : Gateway σ}
    (h : message.destination.resolve g.options = .error fault) (handOver : Bool) :
    g.deliver message handOver = (.goesOn (.error (.destination fault)), g) := by
  rw [deliver, h]

theorem deliver_of_rejected {message : Message} {out : Outbound} {e : LinkError} {g : Gateway σ}
    (hout : g.setting.outbound message = some out)
    (h : (Transport.publish out g.transport).1 = .error e) (handOver : Bool) :
    ∃ g', g.deliver message handOver = (.goesOn (.error (.transport e)), g') ∧
      g'.finished = g.finished ∧ SpendsTickets g g' := by
  unfold Setting.outbound at hout
  unfold deliver
  split at hout
  · cases hout
  · next topic hresolve =>
    have hresolve' : message.destination.resolve g.options = .ok topic := hresolve
    have hsame : (⟨topic, g.options.encodePayload message.payload, message.qos, message.retain,
        message.priority⟩ : Outbound) = out := Option.some.inj hout
    rw [hresolve']
    dsimp only
    rw [hsame]
    split
    · -- Who only hands a message over takes no ticket.
      have htracker := tracker_hand g out
      have hfinished := finished_hand g out
      have hrefused := hand_of_error h
      cases hhand : g.hand out with
      | mk result g' =>
        rw [hhand] at htracker hfinished hrefused
        cases hrefused
        exact ⟨g', rfl, hfinished, spendsTickets_of_same (congrArg _ htracker)⟩
    · have hfinished := finished_hand (g.track (g.tracker.arm out.qos).2) out
      exact ⟨_, handTracked_eq_giveUp h, hfinished, spendsTickets_giveUp out g⟩

/-! ## 3. Options and callers -/

theorem configure_refused {g : Gateway σ} (hmanned : g.IsManned) {options : Options}
    (h : options.validate ≠ .ok () ∨ options.dispatchWorkers ≠ g.options.dispatchWorkers) :
    ∃ fault, g.configure options = .error (.config (.options fault)) := by
  unfold configure
  cases hvalid : options.validate with
  | error fault => exact ⟨fault, rfl⟩
  | ok _ =>
    have hworkers : options.dispatchWorkers ≠ g.pool.size := by
      rw [hmanned]
      exact h.resolve_left fun hne => hne hvalid
    exact ⟨_, if_neg hworkers⟩

theorem onlyTells_of_nowhere {g : Gateway σ} {message : Message} {fault : DestinationFault}
    (h : message.destination.resolve g.options = .error fault) {caller : Caller}
    (ha : g.activity (.call caller) = some (.begins (.publish message))) :
    OnlyTells caller (if g.stopping then nothing else .error (.destination fault)) g
      (g.turn (.call caller)) := by
  let g₀ := g.drop (.call caller)
  have hdeliver : g₀.deliver message true = (.goesOn (.error (.destination fault)), g₀) :=
    deliver_of_nowhere (g := g₀) h true
  have htake : g₀.take (.publish message) =
      (.goesOn (if g.stopping then nothing else .error (.destination fault)), g₀) := by
    show (if g.stopping = true then _ else _) = _
    rw [hdeliver]
    split <;> rfl
  rw [turn_publish ha htake]
  exact onlyTells_finish ..

theorem turn_of_rejected {g : Gateway σ} {message : Message} {out : Outbound} {e : LinkError}
    (hout : g.setting.outbound message = some out)
    (h : (Transport.publish out g.transport).1 = .error e) {caller : Caller}
    (ha : g.activity (.call caller) = some (.begins (.publish message)))
    (hrunning : g.stopping = false) :
    (g.turn (.call caller)).finished = g.finished ++ [(caller, .error (.transport e))] ∧
      SpendsTickets g (g.turn (.call caller)) := by
  let g₀ := g.drop (.call caller)
  obtain ⟨g', hdeliver, hfinished, hspends⟩ := deliver_of_rejected (g := g₀) hout h true
  have htake : g₀.take (.publish message) = (.goesOn (.error (.transport e)), g') := by
    show (if g.stopping = true then _ else _) = _
    rw [if_neg (Bool.eq_false_iff.1 hrunning), hdeliver]
  rw [turn_publish ha htake]
  refine ⟨?_, fun ticket later hnew hold => ?_⟩
  · show g'.finished ++ _ = _
    rw [hfinished]
    rfl
  · have hrenews := renews_after (g'.finish (.call caller) (.error (.transport e))) later
    exact (hspends ticket [] hnew hold).renews hrenews

theorem onlyTells_of_stopping {g : Gateway σ} (hstop : g.stopping = true) {call : Call}
    (hcall : call = .start ∨ call = .connect) {caller : Caller}
    (ha : g.activity (.call caller) = some (.begins call)) :
    OnlyTells caller (.error .shutDown) g (g.turn (.call caller)) := by
  have hdrop : (g.drop (.call caller)).stopping = true := hstop
  have hbegun : g.begun (.call caller) call = (.error .shutDown, [], g.drop (.call caller)) := by
    rcases hcall with rfl | rfl <;> exact if_pos hdrop
  rw [turn_eq rfl, ha]
  dsimp only
  rw [hbegun]
  exact onlyTells_finish ..

/-! ## 4. At any time -/

/-- What is refused at any time, and what becomes of it. -/
structure RefusesSafely (g : Gateway σ) : Prop where
  /-- Options that are not in order, or that ask for another number of workers. -/
  options : ∀ o : Options,
    o.validate ≠ .ok () ∨ o.dispatchWorkers ≠ g.options.dispatchWorkers →
      (∃ fault, g.configure o = .error (.config (.options fault))) ∧
        (Event.configure o).apply g = g
  /-- A message that goes nowhere, whoever publishes it. -/
  destination : ∀ (message : Message) (fault : DestinationFault),
    message.destination.resolve g.options = .error fault →
      (∀ handOver,
        g.deliver message handOver = (.goesOn (.error (.destination fault)), g)) ∧
      ∀ caller, g.activity (.call caller) = some (.begins (.publish message)) →
        OnlyTells caller (if g.stopping then nothing else .error (.destination fault)) g
          (g.turn (.call caller))
  /-- A message that the transport does not take, whoever publishes it. -/
  transport : ∀ (message : Message) (out : Outbound) (e : LinkError),
    g.setting.outbound message = some out →
    (Transport.publish out g.transport).1 = .error e →
      (∀ handOver, ∃ g', g.deliver message handOver = (.goesOn (.error (.transport e)), g') ∧
        SpendsTickets g g') ∧
      ∀ caller, g.activity (.call caller) = some (.begins (.publish message)) →
        g.stopping = false →
          (g.turn (.call caller)).finished = g.finished ++ [(caller, .error (.transport e))] ∧
            SpendsTickets g (g.turn (.call caller))
  /-- A message that is not taken is given up. Whatever happens while it is under way, its ticket
  does not stay in use. -/
  ticket : ∀ out : Outbound,
    (∀ e, (Transport.publish out g.transport).1 = .error e →
      g.handTracked out = (.goesOn (.error (.transport e)), g.giveUp out [] [])) ∧
    ∀ during behind later : List (Event σ),
      ((g.giveUp out during behind).after later).tracker.IsSpent (g.tracker.arm out.qos).1

/-- What is refused after a shutdown has begun. -/
structure RefusesCalls (g : Gateway σ) : Prop where
  start : ∀ caller, g.activity (.call caller) = some (.begins .start) →
    OnlyTells caller (.error .shutDown) g (g.turn (.call caller))
  connect : ∀ caller, g.activity (.call caller) = some (.begins .connect) →
    OnlyTells caller (.error .shutDown) g (g.turn (.call caller))
  publish : ∀ caller message, g.activity (.call caller) = some (.begins (.publish message)) →
    OnlyTells caller nothing g (g.turn (.call caller))
  /-- Handlers of requests publish their answers. -/
  answer : ∀ message, g.take (.publish message) = (.goesOn nothing, g)

theorem refusesSafely_of_isManned {g : Gateway σ} (hmanned : g.IsManned) : g.RefusesSafely where
  options o h := by
    obtain ⟨fault, hrefused⟩ := configure_refused hmanned h
    refine ⟨⟨fault, hrefused⟩, ?_⟩
    rw [Event.apply, hrefused]
    rfl
  destination _ _ h := ⟨deliver_of_nowhere h, fun _ ha => onlyTells_of_nowhere h ha⟩
  transport message out e hout h := by
    refine ⟨fun handOver => ?_, fun _ ha hrunning => turn_of_rejected hout h ha hrunning⟩
    obtain ⟨g', hdeliver, -, hspends⟩ := deliver_of_rejected hout h handOver
    exact ⟨g', hdeliver, hspends⟩
  ticket out := ⟨fun _ => handTracked_eq_giveUp,
    fun during behind later => isSpent_giveUp out during behind later g⟩

theorem refusesCalls_of_stopping {g : Gateway σ} (hstop : g.stopping = true) : g.RefusesCalls := by
  have htake (message : Message) (g' : Gateway σ) (hstop : g'.stopping = true) :
      g'.take (.publish message) = (.goesOn nothing, g') := by
    rw [take, if_pos hstop]
  refine ⟨fun _ ha => onlyTells_of_stopping hstop (.inl rfl) ha,
    fun _ ha => onlyTells_of_stopping hstop (.inr rfl) ha, fun caller message ha => ?_,
    fun message => htake message g hstop⟩
  rw [turn_publish ha (htake message (g.drop (.call caller)) hstop)]
  exact onlyTells_finish ..

/-- **What a gateway refuses leaves it as it was, at any time. From the moment that a shutdown
begins, it refuses to be started and to publish.** -/
theorem refuses_after {options : Options} {transport : σ} {device : Device} {clock : Clock}
    {verifier : Option (Topic → Payload → Bool)} {g : Gateway σ}
    (hcreate : create options transport device clock verifier = .ok g) (events : List (Event σ)) :
    (g.after events).RefusesSafely ∧
      ∀ caller, (g.after events).activity (.call caller) = some (.begins .shutDown) →
        ∀ more, (((g.after events).turn (.call caller)).after more).RefusesCalls := by
  have hmanned := isManned_after (isManned_of_create hcreate) events
  refine ⟨refusesSafely_of_isManned hmanned, fun caller ha more => ?_⟩
  have hs := sound_after (isNew_of_create hcreate).sound events
  -- The gateway is stopping from the turn of the shutdown on.
  have hstop := stopping_turn_shutDown hs ha
  exact refusesCalls_of_stopping (stopping_after hstop more)

def reading : Message := (Message.toApp "heater" "temperature" {}).withQos .atLeastOnce

/-- A gateway has started, and an application waits for what its transport does not acknowledge. -/
def untilWaiting : List (Event Loopback) :=
  startingUp ++ [.link { connected := true, acknowledges := false, nextId := 2 },
    .ask (some "heater") (.publish reading), .turn (.call (some "heater"))]

/-- What has become of a gateway on which an application waits. -/
def whileWaiting (events : List (Event Loopback)) : Gateway Loopback :=
  (loopback.after untilWaiting).after events

/-- While a delivery is awaited, a gateway refuses other workers, a message that goes nowhere, one
that its transport does not take, and a start after a shutdown. -/
theorem refuses_after_while_waiting :
    create {} {} {} .epoch none = .ok loopback ∧
    (whileWaiting []).tracker.slot = .awaiting ⟨2⟩ .atLeastOnce 2 ∧
    whileWaiting [.configure { dispatchWorkers := 4 }] = whileWaiting [] ∧
    OnlyTells none (.error (.destination .emptyTopic))
      (whileWaiting [.ask none (.publish (.toTopic "" {}))])
      (whileWaiting [.ask none (.publish (.toTopic "" {})), .turn (.call none)]) ∧
    SpendsTickets
      (whileWaiting [.link { connected := true, failsPublish := true },
        .ask none (.publish reading)])
      (whileWaiting [.link { connected := true, failsPublish := true },
        .ask none (.publish reading), .turn (.call none)]) ∧
    OnlyTells (some "late") (.error .shutDown)
      (whileWaiting [.ask none .shutDown, .turn (.call none), .ask (some "late") .start])
      (whileWaiting [.ask none .shutDown, .turn (.call none), .ask (some "late") .start,
        .turn (.call (some "late"))]) := by
  have hslot : (loopback.after untilWaiting).tracker.slot = .awaiting ⟨2⟩ .atLeastOnce 2 := by
    decide +kernel
  have hidle : (loopback.after untilWaiting).isDone none = true := by decide +kernel
  have hrunning : (loopback.after untilWaiting).stopping = false := by decide +kernel
  have hworkers : 4 ≠ (loopback.after untilWaiting).options.dispatchWorkers := by decide +kernel
  have hout : ((loopback.after untilWaiting).setting.outbound reading).isSome = true := by
    decide +kernel
  have hlate : ((loopback.after untilWaiting).after
      [.ask none .shutDown, .turn (.call none)]).isDone (some "late") = true := by decide +kernel
  have hrefuses (events : List (Event Loopback)) :=
    refuses_after create_loopback (untilWaiting ++ events)
  simp only [after_append] at hrefuses
  unfold whileWaiting
  -- What the gateway has become is of no further interest.
  generalize loopback.after untilWaiting = g at hslot hidle hrunning hworkers hout hlate hrefuses ⊢
  refine ⟨create_loopback, hslot, ?_, ?_, ?_, ?_⟩
  · exact ((hrefuses []).1.options { dispatchWorkers := 4 } (.inr hworkers)).2
  · have hask : (g.after [.ask none (.publish (.toTopic "" {}))]).stopping = false := by
      rw [after_cons, Event.apply, if_pos hidle]
      exact hrunning
    have htells := ((hrefuses [.ask none (.publish (.toTopic "" {}))]).1.destination
      (.toTopic "" {}) .emptyTopic rfl).2 none (activity_ask hidle)
    rwa [if_neg (Bool.eq_false_iff.1 hask)] at htells
  · obtain ⟨out, hout⟩ := Option.isSome_iff_exists.1 hout
    let events : List (Event Loopback) :=
      [.link { connected := true, failsPublish := true }, .ask none (.publish reading)]
    let g₁ : Gateway Loopback := { g with transport := { connected := true, failsPublish := true } }
    have hask : g.after events =
        (g₁.hold (.call none) (.begins (.publish reading))).wake [.call none] := if_pos hidle
    have hplaced : (g.after events).setting.outbound reading = some out := by
      rw [hask]
      exact hout
    have hrejected : (Transport.publish out (g.after events).transport).1 =
        .error (.publishFailed out.topic "Mock publish failure") := by
      rw [hask]
      rfl
    have hgoing : (g.after events).stopping = false := by
      rw [hask]
      exact hrunning
    have hrefused := (hrefuses events).1.transport reading out _ hplaced hrejected
    exact (hrefused.2 none (activity_ask (g := g₁) hidle) hgoing).2
  · have hstarts := (hrefuses [.ask none .shutDown]).2 none (activity_ask hidle)
      [.ask (some "late") .start]
    exact hstarts.start (some "late") (activity_ask hlate)

end Uplink.Gateway
