import Uplink.Agenda
import Uplink.Debouncer.Basic
import Uplink.Delivery.Tracker
import Uplink.Error
import Uplink.Listener
import Uplink.Pool.Basic
import Uplink.Request
import Uplink.Subscription
import Uplink.Transport

/-!
# Gateways

A gateway shares one connection to the cloud among its applications. It announces itself when it
connects and takes its leave when it disconnects, hands on what comes in, and waits for what it
sent to be acknowledged.

What it does is done by activities that take turns. An activity is a list of steps; it takes them
one after the other until one of them has to wait.
-/

namespace Uplink

/-- How a gateway answers requests for an application. -/
structure Handler where
  name : String
  delayMs : Nat := 0
  /-- The outcome, unless it fails. -/
  answer : Request.Context → Payload → Option Request.Outcome

/-- One who is told of connections or deliveries. A quiet one notes only what it has to. -/
structure Listener where
  name : String
  isQuiet : Bool := false
deriving DecidableEq, Repr

inductive PlatformEvent where
  | positionLocked
  | tamperDetected
  | packageInstalled (name : String)
  | packageUninstalled (name : String)
deriving DecidableEq, Repr

namespace Gateway

inductive State where
  | disconnected
  | connecting
  | connected
  | disconnecting
deriving DecidableEq, Repr

def State.name : State → String
  | disconnected => "disconnected"
  | connecting => "connecting"
  | connected => "connected"
  | disconnecting => "disconnecting"

inductive Callback where
  | established
  | disconnecting
  | disconnected
  | lost
deriving DecidableEq, Repr

/-- What a gateway can be asked to do that may take time. -/
inductive Call where
  | start
  | connect
  | disconnect
  | shutDown
  | publish (message : Message)
  | callback (c : Callback)

/-- The result of a call. Only a publish that was waited for has a number and an outcome. -/
abbrev Result := Except CloudError (Option (Nat × Delivery.Outcome))

/-- What a gateway did that others can see. -/
inductive Note where
  | published (message : Outbound) (result : Except LinkError Nat)
  | subscribed (filter : String) (qos : Qos) (result : Except LinkError Unit)
  | unsubscribed (filter : String) (result : Except LinkError Unit)
  | told (subscriber : String) (message : Received)
  | connection (listener : String) (event : ConnectionEvent)
  | delivery (listener : String) (ack : Delivery.Acknowledgement) (id : Nat) (topic : String)
  | requested (handler : String) (context : Request.Context) (payload : Payload)

inductive Step where
  | enter (state : State)
  /-- Drop the certificates that are due later. -/
  | dropPending
  | certificate (kind : CertificateKind)
  /-- Publish a certificate that was due later. -/
  | flush (message : Message)
  | publish (message : Message)
  /-- Subscribe to what is for the gateway itself. -/
  | reconcile (isNew : Bool)
  /-- Subscribe to what others want. -/
  | resubscribe
  | tell (event : ConnectionEvent)
  | closeTransport
  | closePool
  | pause (ms : Nat)
  | note (n : Note)
  | acknowledge (id : Nat) (topic : String) (ack : Delivery.Acknowledgement)

/-- Who takes turns. -/
inductive Strand where
  | call (caller : Caller)
  /-- The window of a generation of certificates that are due later. -/
  | window (generation : Nat)
  | pool (strand : Pool.Strand)
  /-- The acknowledgements of a message that the transport took. -/
  | acknowledgement (number : Nat)
deriving DecidableEq, Repr

inductive Hold where
  | delivery (ticket : Delivery.Ticket) (id deadline : Nat)
  | moment (time : Nat)
  | poolEnd
deriving DecidableEq, Repr

inductive Activity where
  | begins (call : Call)
  | steps (steps : List Step)
  | waits (hold : Hold) (rest : List Step)

end Gateway

structure Gateway (σ : Type) where
  options : Options
  device : Device
  clock : Clock
  /-- Decides on messages from the cloud. -/
  verifier : Option (Topic → Payload → Bool) := none
  transport : σ
  state : Gateway.State := .disconnected
  tracker : Delivery.Tracker := {}
  debouncer : Debouncer Message := {}
  pool : Pool (List Gateway.Step)
  handlers : SortedMap Handler := .empty
  /-- Applications that have no handler. -/
  applications : SortedMap Unit := .empty
  subscriptions : Subscriptions String := []
  /-- What is subscribed to for the gateway itself. -/
  defaultFilter : Option String := none
  connectionListeners : ListenerSet Listener := .empty
  deliveryListeners : ListenerSet Listener := .empty
  /-- The gateway was shut down. -/
  stopping : Bool := false
  activities : List (Gateway.Strand × Gateway.Activity) := []
  /-- How many messages were acknowledged at once. -/
  acknowledged : Nat := 0
  finished : List (Caller × Gateway.Result) := []
  notes : List Gateway.Note := []
  agenda : Agenda Gateway.Strand := {}

namespace Gateway

variable {σ : Type} [Transport σ]

def isConnected (g : Gateway σ) : Bool := Transport.isConnected g.transport

def note (n : Note) (g : Gateway σ) : Gateway σ := { g with notes := g.notes ++ [n] }

def wake (strands : List Strand) (g : Gateway σ) : Gateway σ :=
  { g with agenda := g.agenda.wakeAll strands }

def create (options : Options) (transport : σ) (device : Device) (clock : Clock)
    (verifier : Option (Topic → Payload → Bool)) : Except CloudError (Gateway σ) :=
  match options.validate with
  | .error fault => .error (.config (.options fault))
  | .ok () =>
    let pool := Pool.ofSize options.dispatchWorkers
    .ok ({ options, device, clock, verifier, transport, pool : Gateway σ }.wake
      (pool.crew.map .pool))

/-- All applications of a gateway, in ascending order. -/
def applicationIds (g : Gateway σ) : List String :=
  (g.handlers.names.foldl (fun ids id => ids.insert id ()) g.applications).names

def certificate (kind : CertificateKind) (g : Gateway σ) : Message :=
  Certificate.build g.clock g.options g.device g.applicationIds kind

def schedule (kind : CertificateKind) (g : Gateway σ) : Gateway σ :=
  -- The message is made now, and goes out as it is when the window is over.
  let debouncer := g.debouncer.schedule kind (g.certificate kind) g.options.republishDelayMs
  { g with debouncer }.wake [.window debouncer.generations]

def subscribeTo (filter : String) (qos : Qos) (g : Gateway σ) : Gateway σ :=
  let (result, transport) := Transport.subscribe filter qos g.transport
  { g with transport }.note (.subscribed filter qos result)

def unsubscribeFrom (filter : String) (g : Gateway σ) : Gateway σ :=
  let (result, transport) := Transport.unsubscribe filter g.transport
  { g with transport }.note (.unsubscribed filter result)

/-- What is to be subscribed to for the gateway itself. -/
def desiredFilter (g : Gateway σ) : Option String :=
  if g.options.defaultSubscriptions then some (Filter.ofGateway g.options) else none

/-- Subscribe to what is for the gateway itself. -/
def reconcile (isNew : Bool) (g : Gateway σ) : Gateway σ :=
  let desired := g.desiredFilter
  let previous := g.defaultFilter
  let g := match previous with
    -- A filter that is still wanted is not given up, not even to subscribe to it anew.
    | some filter => if desired = some filter then g else g.unsubscribeFrom filter
    | none => g
  let g := match desired with
    -- A new connection knows of no subscriptions that were made on another one.
    | some filter => if !isNew && previous = some filter then g else g.subscribeTo filter .atLeastOnce
    | none => g
  { g with defaultFilter := desired }

def resubscribe (g : Gateway σ) : Gateway σ :=
  g.subscriptions.records.foldl (fun g r => g.subscribeTo r.filter r.qos) g

def tell (event : ConnectionEvent) (g : Gateway σ) : Gateway σ :=
  (g.connectionListeners.members.filter (!·.isQuiet)).foldl
    (fun g l => g.note (.connection l.name event)) g

/-- Tell all listeners about a delivery. A quiet one notes only that it was confirmed. -/
def tellDelivery (id : Nat) (topic : String) (ack : Delivery.Acknowledgement) (g : Gateway σ) :
    Gateway σ :=
  (g.deliveryListeners.members.filter fun l => !l.isQuiet || ack == .confirmed).foldl
    (fun g l => g.note (.delivery l.name ack id topic)) g

def waiting (what : Hold → Bool) (g : Gateway σ) : List Strand :=
  g.activities.filterMap fun
    | (strand, .waits hold _) => if what hold then some strand else none
    | _ => none

def track (tracker : Delivery.Tracker) (g : Gateway σ) : Gateway σ :=
  -- Who waited with its ticket until now is woken, for whatever reason it no longer does.
  let freed := g.waiting fun
    | .delivery ticket _ _ => g.tracker.awaits ticket && !tracker.awaits ticket
    | _ => false
  { g with tracker }.wake freed

def acknowledge (id : Nat) (topic : String) (ack : Delivery.Acknowledgement) (g : Gateway σ) :
    Gateway σ :=
  (g.track (g.tracker.resolve id ack).2).tellDelivery id topic ack

def go (result : List Pool.Strand × Pool (List Step)) (g : Gateway σ) : Gateway σ :=
  let closers := g.waiting (· == .poolEnd)
  let strands (s : Pool.Strand) : List Strand :=
    match s with
    -- The pool does not know by whose call it is closed.
    | .closer => closers
    | s => [.pool s]
  { g with pool := result.2 }.wake (result.1.flatMap strands)

end Gateway

end Uplink
