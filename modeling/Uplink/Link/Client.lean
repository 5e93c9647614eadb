import Uplink.Agenda
import Uplink.Link.Broker
import Uplink.Link.Policy

/-!
# A link out of reach

The client of a broker that cannot be reached: every attempt to connect fails at once. A supervisor
makes the attempts. It keeps its place after it has given up, until the client is told to
disconnect.
-/

namespace Uplink.Link

/-- What the library that speaks to the broker says of its failures. The client passes it on. -/
structure Library where
  /-- Why an attempt to connect failed. -/
  refusal : String := "Connection refused"
  /-- Why a request is not taken by a session without a supervisor. -/
  requestFault : String := "Failed to send mqtt requests to eventloop"
deriving DecidableEq, Repr

/-- The reason for being disconnected that is not an accident. -/
def goodbye : String := "Client disconnected"

/-- Why a caller does not wait any longer for the link. -/
def noConfirmation : String := "ConnAck timeout - no connection confirmation received"

def tooManyAttempts (attempts : Nat) : String := s!"Max reconnection attempts ({attempts}) exceeded"

/-- How long a caller waits for the link, in milliseconds. -/
def connectWaitMs : Nat := 30000

def supervisorGraceMs : Nat := 2000

inductive Notice where
  | lost (cause : String)
  | disconnecting
  | disconnected
deriving DecidableEq, Repr

def Notice.name : Notice → String
  | lost _ => "lost"
  | disconnecting => "disconnecting"
  | disconnected => "disconnected"

structure Supervisor where
  attempts : Nat := 0
  /-- When it makes the next attempt, unless it is about to make one. -/
  nextAt : Option Nat := none
deriving DecidableEq, Repr

inductive Request where
  | connect
  | disconnect
deriving DecidableEq, Repr

inductive Dialogue where
  | opening (request : Request)
  | connecting (deadline : Nat)
  | disconnecting (deadline : Nat) (result : Except LinkError Unit)

def Dialogue.awaitsLink : Dialogue → Bool
  | connecting _ => true
  | _ => false

def Dialogue.awaitsSupervisor : Dialogue → Bool
  | disconnecting .. => true
  | _ => false

inductive Strand where
  | supervisor
  | call (caller : Caller)
deriving DecidableEq, Repr

structure Client where
  options : Options
  broker : BrokerSection
  policy : Policy
  library : Library := {}
  /-- The states that the link went through and when, from the last one on. -/
  history : List (Nat × State) := []
  /-- There is a session to send requests to. -/
  session : Bool := false
  supervisor : Option Supervisor := none
  /-- A supervisor was started, and nobody has waited for its end. -/
  placeTaken : Bool := false
  /-- The client was told to disconnect. -/
  leaving : Bool := false
  listening : Bool := false
  notices : List (Notice × Nat) := []
  calls : List (Caller × Dialogue) := []
  finished : List (Caller × Except LinkError Unit) := []
  agenda : Agenda Strand := {}

namespace Client

/-- A client for a broker, which must have an address. -/
def createWith (library : Library) (env : Environment) (options : Options) (broker : BrokerSection)
    (policy : Policy) : Except LinkError Client := do
  let _ ← Broker.ofSection env broker
  return { options, broker, policy, library }

/-- A client with the usual library. -/
def create (env : Environment) (options : Options) (broker : BrokerSection) (policy : Policy) :
    Except LinkError Client :=
  createWith {} env options broker policy

def state (c : Client) : State := (c.history.head?.map (·.2)).getD .idle

def wakeCallers (waits : Dialogue → Bool) (c : Client) : Client :=
  let callers := (c.calls.filter fun e => waits e.2).map fun e => Strand.call e.1
  { c with agenda := c.agenda.wakeAll callers }

def enter (s : State) (c : Client) : Client :=
  { c with history := (c.agenda.now, s) :: c.history }.wakeCallers Dialogue.awaitsLink

def notice (n : Notice) (c : Client) : Client :=
  if c.listening then { c with notices := c.notices ++ [(n, c.agenda.now)] } else c

def lose (cause : String) (c : Client) : Client :=
  let wasConnected := c.state.canPublish
  let c := c.enter (.disconnected cause)
  -- Attempts that fail are not told of, only the loss of a link that was up.
  if wasConnected then c.notice (.lost cause) else c

def endSupervisor (c : Client) : Client :=
  { c with supervisor := none, agenda := c.agenda.silence .supervisor }.wakeCallers
    Dialogue.awaitsSupervisor

/-- The supervisor makes attempts until it has to wait or comes to an end. -/
def attempt (attempts : Nat) : Nat → Client → Client
  -- With delays of zero there are a number of attempts in one turn, and then others have theirs.
  | 0, c => { c with
      supervisor := some ⟨attempts, none⟩
      agenda := c.agenda.wake .supervisor }
  | fuel + 1, c =>
    -- A client that is leaving makes no further attempt.
    if c.leaving then (c.enter (.disconnected goodbye)).endSupervisor
    else
      let c := c.lose c.library.refusal
      match c.policy.decide attempts false with
      | .proceed next delay =>
        let c := c.enter (.reconnecting next)
        if delay = 0 then attempt next fuel ({ c with session := true }.enter .connecting)
        else
          let time := c.agenda.now + delay
          { c with
            supervisor := some ⟨next, some time⟩
            agenda := c.agenda.alarm time .supervisor }
      | _ =>
        (c.enter (.permanentlyDisconnected (tooManyAttempts attempts))).endSupervisor

/-- How many attempts can follow each other without a delay, if there is any end to them. -/
def attemptLimit (p : Policy) : Nat := p.pattern.length + p.maxAttempts.getD 0 + 2

def supervise (c : Client) : Client :=
  match c.supervisor with
  | none => c
  | some ⟨attempts, none⟩ => c.attempt attempts (attemptLimit c.policy)
  | some ⟨attempts, some time⟩ =>
    if c.agenda.now < time then c
    else
      let c := { c with session := true }.enter .connecting
      c.attempt attempts (attemptLimit c.policy)

def finish (caller : Caller) (result : Except LinkError Unit) (c : Client) : Client :=
  { c with
    calls := c.calls.filter (·.1 != caller)
    finished := c.finished ++ [(caller, result)]
    agenda := c.agenda.silence (.call caller) }

def hold (caller : Caller) (dialogue : Dialogue) (c : Client) : Client :=
  { c with calls := c.calls.filter (·.1 != caller) ++ [(caller, dialogue)] }

def lookAtLink (caller : Caller) (deadline : Nat) (c : Client) : Client :=
  match c.state with
  | .connected => c.finish caller (.ok ())
  | .permanentlyDisconnected reason => c.finish caller (.error (.permanentlyDisconnected reason))
  | _ =>
    -- The supervisor goes on with its attempts when the caller does not wait any longer.
    if deadline ≤ c.agenda.now then c.finish caller (.error (.connectionFailed noConfirmation))
    else c

def farewell (caller : Caller) (result : Except LinkError Unit) (c : Client) : Client :=
  (({ c with placeTaken := false }.endSupervisor.enter (.disconnected goodbye)).notice
    .disconnected).finish caller result

def lookAtSupervisor (caller : Caller) (deadline : Nat) (result : Except LinkError Unit)
    (c : Client) : Client :=
  if c.supervisor.isNone || deadline ≤ c.agenda.now then c.farewell caller result else c

def connect (caller : Caller) (c : Client) : Client :=
  -- Whether the supervisor that was started is still at work is not looked at.
  if c.placeTaken then c.finish caller (.ok ())
  else
    let c := { c with session := true, leaving := false }.enter .connecting
    let deadline := c.agenda.now + connectWaitMs
    let c := { c with
      supervisor := some {}
      placeTaken := true
      agenda := (c.agenda.wake Strand.supervisor).alarm deadline (.call caller) }
    (c.hold caller (.connecting deadline)).lookAtLink caller deadline

/-- A request to the session, if there is one. -/
def send (fault : String → LinkError) (c : Client) : Except LinkError Unit :=
  if !c.session then .error .notConnected
  else if c.supervisor.isNone then .error (fault c.library.requestFault)
  else .ok ()

def disconnect (caller : Caller) (c : Client) : Client :=
  if !c.session then c.finish caller (.error .notConnected)
  else
    -- The session is over also if it does not take the request.
    let result := c.send .connectionFailed
    let c := { c.notice .disconnecting with leaving := true, session := false }
    if c.placeTaken && c.supervisor.isSome then
      let deadline := c.agenda.now + supervisorGraceMs
      let c := { c with
        placeTaken := false, agenda := c.agenda.alarm deadline (.call caller) }
      c.hold caller (.disconnecting deadline result)
    else c.farewell caller result

def proceed (caller : Caller) (c : Client) : Client :=
  match c.calls.lookup caller with
  | none => c
  | some (.opening .connect) => c.connect caller
  | some (.opening .disconnect) => c.disconnect caller
  | some (.connecting deadline) => c.lookAtLink caller deadline
  | some (.disconnecting deadline result) => c.lookAtSupervisor caller deadline result

def turn : Strand → Client → Client
  | .supervisor, c => c.supervise
  | .call caller, c => c.proceed caller

instance : Timed Client Strand where
  agenda := agenda
  withAgenda a c := { c with agenda := a }
  turn := turn

def isDone (caller : Caller) (c : Client) : Bool := (c.calls.lookup caller).isNone

def ask (caller : Caller) (request : Request) (c : Client) : Client :=
  let c := c.hold caller (.opening request)
  if caller.isSome then { c with agenda := c.agenda.wake (.call caller) }
  else Timed.await (.call caller) (·.isDone caller) c

def subscribe (filter : String) (c : Client) : Except LinkError Unit :=
  c.send (.subscriptionFailed (substitute c.options c.broker filter))

def publish (topic : String) (c : Client) : Except LinkError Unit :=
  if c.state.canPublish then c.send (.publishFailed (substitute c.options c.broker topic))
  else .error .notConnected

end Client

end Uplink.Link
