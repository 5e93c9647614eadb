import Uplink.Gateway.Basic
import Uplink.Payload.Codec

/-!
# The turns of a gateway's activities

An activity takes its steps until one of them has to wait, and its result is that of its last step.
-/

namespace Uplink.Gateway

variable {σ : Type} [Transport σ]

/-- What came of a step: the activity goes on, or it has to wait. -/
inductive Progress where
  | goesOn (result : Result)
  | waits (hold : Hold)

/-- The result of a step that has none of its own. -/
def nothing : Result := .ok none

/-- The acknowledgements of a message that the transport took. -/
def acknowledgements (id : Nat) (message : Outbound) : List Step :=
  .acknowledge id message.topic .published ::
    if message.qos = .atMostOnce then [] else [.acknowledge id message.topic .confirmed]

/-- The acknowledgements of a message come in when their turn comes. -/
def expect (id : Nat) (message : Outbound) (g : Gateway σ) : Gateway σ :=
  let strand := Strand.acknowledgement g.acknowledged
  { g with
    acknowledged := g.acknowledged + 1
    activities := g.activities ++ [(strand, Activity.steps (acknowledgements id message))] }.wake [strand]

/-- Hand a message to the transport, which may acknowledge it at once. -/
def hand (message : Outbound) (g : Gateway σ) : Except LinkError Nat × Gateway σ :=
  let (result, transport) := Transport.publish message g.transport
  let g := { g with transport }.note (.published message result)
  match result with
  | .error e => (.error e, g)
  | .ok id => (.ok id, if Transport.acknowledges g.transport then g.expect id message else g)

/-- Hand a message to the transport and wait for its acknowledgement. -/
def handTracked (message : Outbound) (g : Gateway σ) : Progress × Gateway σ :=
  -- The ticket comes first: an acknowledgement may be there before the number is known.
  let (ticket, tracker) := g.tracker.arm message.qos
  match (g.track tracker).hand message with
  | (.error e, g) => (.goesOn (.error (.transport e)), g.track (g.tracker.disarm ticket))
  | (.ok id, g) =>
    let deadline := g.agenda.now + g.options.deliveryWaitMs
    let (outcome, tracker) := g.tracker.begin ticket id deadline g.agenda.now
    let g := g.track tracker
    match outcome with
    | some outcome => (.goesOn (.ok (some (id, outcome))), g)
    | none => (.waits (.delivery ticket id deadline), g)

/-- Publish a message. One that is only handed over is not waited for, if nobody confirms it. -/
def deliver (message : Message) (handOver : Bool) (g : Gateway σ) : Progress × Gateway σ :=
  match message.destination.resolve g.options with
  | .error fault => (.goesOn (.error (.destination fault)), g)
  | .ok topic =>
    let out : Outbound :=
      ⟨topic, g.options.encodePayload message.payload, message.qos, message.retain,
        message.priority⟩
    if handOver && message.qos = .atMostOnce then
      match g.hand out with
      | (.error e, g) => (.goesOn (.error (.transport e)), g)
      | (.ok _, g) => (.goesOn nothing, g)
    else g.handTracked out

def take : Step → Gateway σ → Progress × Gateway σ
  | .enter state, g => (.goesOn nothing, { g with state })
  | .dropPending, g => (.goesOn nothing, { g with debouncer := g.debouncer.cancel })
  -- A certificate is made when its turn comes, and goes out also while the gateway is stopping.
  | .certificate kind, g => g.deliver (g.certificate kind) false
  | .flush message, g => if g.stopping then (.goesOn nothing, g) else g.deliver message false
  | .publish message, g => if g.stopping then (.goesOn nothing, g) else g.deliver message true
  | .reconcile isNew, g => (.goesOn nothing, g.reconcile isNew)
  | .resubscribe, g => (.goesOn nothing, g.resubscribe)
  | .tell event, g => (.goesOn nothing, g.tell event)
  | .closeTransport, g =>
    (.goesOn nothing, { g with transport := Transport.endClose g.transport })
  | .closePool, g =>
    if g.pool.closed then (.goesOn nothing, g)
    else
      -- The options may have changed since the call began.
      let g := g.go (g.pool.close (g.agenda.now + g.options.disconnectGraceMs))
      let g := g.go (g.pool.closing g.agenda.now)
      (if g.pool.drain.isNone then .goesOn nothing else .waits .poolEnd, g)
  | .pause ms, g => (if ms = 0 then .goesOn nothing else .waits (.moment (g.agenda.now + ms)), g)
  | .note n, g => (.goesOn nothing, g.note n)
  | .acknowledge id topic ack, g => (.goesOn nothing, g.acknowledge id topic ack)

/-- Until when a wait goes on at most. -/
def Hold.deadline? (pool : Pool (List Step)) : Hold → Option Nat
  | .delivery _ _ deadline => some deadline
  | .moment time => some time
  | .poolEnd => pool.drain.map (·.deadline)

/-- Set an alarm for the end of a wait that is not over. -/
def setAlarm (strand : Strand) (hold : Hold) (g : Gateway σ) : Gateway σ :=
  let agenda := g.agenda.silence strand
  match hold.deadline? g.pool with
  | some time => { g with agenda := if time ≤ agenda.now then agenda else agenda.alarm time strand }
  | none => { g with agenda }

def drop (strand : Strand) (g : Gateway σ) : Gateway σ :=
  { g with
    activities := g.activities.filter (·.1 != strand)
    agenda := g.agenda.silence strand }

def hold (strand : Strand) (activity : Activity) (g : Gateway σ) : Gateway σ :=
  { g with activities := g.activities.filter (·.1 != strand) ++ [(strand, activity)] }

def finish (strand : Strand) (result : Result) (g : Gateway σ) : Gateway σ :=
  let g := g.drop strand
  match strand with
  | .call caller => { g with finished := g.finished ++ [(caller, result)] }
  | .pool (.job number) => g.go (g.pool.finish number)
  | _ => g

/-- Take steps until one of them has to wait. -/
def run (strand : Strand) : List Step → Result → Gateway σ → Gateway σ
  | [], result, g => g.finish strand result
  | step :: rest, _, g =>
    match g.take step with
    -- Only the result of the last step is kept.
    | (.goesOn result, g) => run strand rest result g
    | (.waits hold, g) => (g.hold strand (.waits hold rest)).setAlarm strand hold

def establishedSteps : List Step :=
  [.enter .connected, .dropPending, .certificate .birth, .reconcile true, .resubscribe]

def disconnectingSteps : List Step :=
  [.enter .disconnecting, .dropPending, .certificate .disconnect]

/-- What is done when the gateway is told something by its transport. -/
def callbackSteps : Callback → List Step
  | .established => establishedSteps ++ [.tell .established]
  | .disconnecting => disconnectingSteps
  | .disconnected => [.enter .disconnected, .tell .disconnected]
  | .lost => [.enter .disconnected, .tell .lost]

def beginConnect (g : Gateway σ) : Result × List Step × Gateway σ :=
  let (result, transport) := Transport.connect g.transport
  let g := { g with transport }
  match result with
  | .error e => (.error (.transport e), [], { g with state := .disconnected })
  | .ok .established => (nothing, callbackSteps .established, { g with state := .connecting })
  -- There is no new connection that the gateway could be told of.
  | .ok .already => (nothing, [], { g with state := .connecting })

def beginDisconnect (g : Gateway σ) : Result × List Step × Gateway σ :=
  if !g.isConnected then (nothing, [], g)
  else
    let (result, transport) := Transport.beginClose g.transport
    let g := { g with transport }
    match result with
    | .error e => (.error (.transport e), [], g)
    | .ok () =>
      (nothing, callbackSteps .disconnecting ++ [.closeTransport] ++ callbackSteps .disconnected, g)

/-- Begin a call. Gives its result if there is nothing to do, or else the steps to take. -/
def beginCall : Call → Gateway σ → Result × List Step × Gateway σ
  | .start, g =>
    if g.stopping then (.error .shutDown, [], g)
    -- The connection was there before the gateway was started.
    else if g.isConnected then (nothing, establishedSteps, g)
    else g.beginConnect
  | .connect, g => if g.stopping then (.error .shutDown, [], g) else g.beginConnect
  | .disconnect, g => g.beginDisconnect
  | .shutDown, g =>
    let g := { g with stopping := true, debouncer := g.debouncer.cancel }
    -- The pool is closed also if the transport cannot be.
    let (_, steps, g) := g.beginDisconnect
    (nothing, steps ++ [.closePool], g)
  | .publish message, g => (nothing, [.publish message], g)
  | .callback c, g => (nothing, callbackSteps c, g)

def look (strand : Strand) (hold : Hold) (rest : List Step) (g : Gateway σ) : Gateway σ :=
  match hold with
  | .moment time => if g.agenda.now < time then g else (g.drop strand).run strand rest nothing
  | .delivery ticket id deadline =>
    let (outcome, tracker) := g.tracker.poll ticket deadline g.agenda.now
    let g := g.track tracker
    match outcome with
    | some outcome => (g.drop strand).run strand rest (.ok (some (id, outcome)))
    | none => g
  | .poolEnd =>
    let g := g.go (g.pool.closing g.agenda.now)
    if g.pool.drain.isNone then (g.drop strand).run strand rest nothing
    else g.setAlarm strand .poolEnd

/-- The turn of an activity that is not under way. -/
def turnOf : Strand → Gateway σ → Gateway σ
  | .pool (.worker i), g => g.go (g.pool.turn i)
  | strand@(.pool (.job number)), g =>
    match g.pool.active.lookup number with
    | some steps => g.run strand steps nothing
    | none => g
  | strand@(.window generation), g =>
    match g.debouncer.glance generation g.agenda.now with
    | (.stopped, _) => g
    | (.waits time, debouncer) =>
      { g with debouncer, agenda := (g.agenda.silence strand).alarm time strand }
    | (.due, debouncer) =>
      -- The messages are as they were when they were asked for.
      let steps := debouncer.batch.map fun (_, message) => Step.flush message
      { g with debouncer := debouncer.flushed }.run strand steps nothing
  | _, g => g

/-- An activity is still there. A job is there until it is stopped. -/
def isAlive (g : Gateway σ) : Strand → Bool
  | .pool (.job number) => g.pool.isActive number
  | _ => true

def turn (strand : Strand) (g : Gateway σ) : Gateway σ :=
  if g.isAlive strand then
    match g.activities.lookup strand with
    | none => g.turnOf strand
    | some (.begins call) =>
      -- What a call does before it has to wait for the first time is done in one turn.
      let (result, steps, g) := (g.drop strand).beginCall call
      g.run strand steps result
    | some (.steps steps) => (g.drop strand).run strand steps nothing
    | some (.waits hold rest) => g.look strand hold rest
  else g.drop strand

instance : Timed (Gateway σ) Strand where
  agenda := agenda
  withAgenda a g := { g with agenda := a }
  turn := turn

def isDone (caller : Caller) (g : Gateway σ) : Bool :=
  (g.activities.lookup (.call caller)).isNone

def ask (caller : Caller) (call : Call) (g : Gateway σ) : Gateway σ :=
  let g := g.hold (.call caller) (.begins call)
  if caller.isSome then g.wake [.call caller] else Timed.await (.call caller) (·.isDone caller) g

end Uplink.Gateway
