import Uplink.Qos
import Uplink.Text.Utf8

/-!
# What happens on a link

The packets that come in and the packets that went out, and what each means for whoever uses the
link.
-/

namespace Uplink.Link

/-- A packet on a link. Those of the session itself are told apart only where they mean something. -/
inductive Event where
  | connectionAcknowledged
  | publish (topic payload : List UInt8) (qos : Qos) (retain : Bool)
  | publishAcknowledged (packet : Nat)
  | publishReceived (packet : Nat)
  | publishReleased (packet : Nat)
  | publishCompleted (packet : Nat)
  | disconnect
  /-- Answer to a subscription, with a code for each of its filters. -/
  | subscribed (packet : Nat) (codes : List Nat)
  | pingRequest
  | pingResponse
  | publishSent (packet : Nat)
  | disconnectSent
  | otherSent
deriving DecidableEq, Repr

/-- What a packet means. -/
inductive Meaning where
  | connectionAcknowledged
  | messageReceived (topic : String) (payload : List UInt8) (qos : Qos) (retain : Bool)
  | publishSent (packet : Nat)
  | publishConfirmed (packet : Nat)
  | disconnected
  | disconnectSent
  | subscriptionConfirmed (packet : Nat) (failed : Bool)
  | infrastructure
  | outgoing
deriving DecidableEq, Repr

/-- The code grants a subscription: it is the number of a guarantee. -/
def grants (code : Nat) : Bool := (Qos.ofLevel? code).isSome

/-- What a packet means. A publish is confirmed by the last packet of its exchange. -/
def Event.meaning : Event → Meaning
  | connectionAcknowledged => .connectionAcknowledged
  | publish topic payload qos retain => .messageReceived (Utf8.lossy topic) payload qos retain
  | publishAcknowledged packet => .publishConfirmed packet
  | publishCompleted packet => .publishConfirmed packet
  | disconnect => .disconnected
  | subscribed packet codes => .subscriptionConfirmed packet (codes.any fun code => !grants code)
  | publishReceived _ | publishReleased _ | pingRequest | pingResponse => .infrastructure
  | publishSent packet => .publishSent packet
  | disconnectSent => .disconnectSent
  | otherSent => .outgoing

end Uplink.Link
