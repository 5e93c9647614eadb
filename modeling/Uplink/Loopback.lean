import Uplink.Transport

/-!
# The loopback transport

A transport without a broker. It takes messages and subscriptions, numbers the messages, and fails
where it is told to.
-/

namespace Uplink

structure Loopback where
  connected : Bool := false
  acknowledges : Bool := true
  failsConnect : Bool := false
  failsPublish : Bool := false
  failsSubscribe : Bool := false
  failsDisconnect : Bool := false
  failsUnsubscribe : Bool := false
  nextId : UInt64 := 1
  /-- How often it was asked to connect. -/
  connects : Nat := 0
  /-- How often it was asked to disconnect. -/
  disconnects : Nat := 0
deriving DecidableEq, Repr

namespace Loopback

def connect (l : Loopback) : Except LinkError Connecting × Loopback :=
  let l := { l with connects := l.connects + 1 }
  if l.failsConnect then (.error (.connectionFailed "Mock connection failure"), l)
  else (.ok .established, { l with connected := true })

def beginClose (l : Loopback) : Except LinkError Unit × Loopback :=
  if l.failsDisconnect then (.error (.connectionFailed "flaky disconnect"), l)
  else
    let l := { l with disconnects := l.disconnects + 1 }
    if l.connected then (.ok (), l) else (.error .notConnected, l)

def publish (m : Outbound) (l : Loopback) : Except LinkError Nat × Loopback :=
  if !l.connected then (.error .notConnected, l)
  else if l.failsPublish then (.error (.publishFailed m.topic "Mock publish failure"), l)
  else (.ok l.nextId.toNat, { l with nextId := l.nextId + 1 })

def subscribe (filter : String) (l : Loopback) : Except LinkError Unit × Loopback :=
  (if l.failsSubscribe then .error (.subscriptionFailed filter "Mock subscribe failure")
   else .ok (), l)

def unsubscribe (filter : String) (l : Loopback) : Except LinkError Unit × Loopback :=
  (if l.failsUnsubscribe then .error (.subscriptionFailed filter "flaky unsubscribe")
   else .ok (), l)

instance : Transport Loopback where
  isConnected := connected
  connect := connect
  beginClose := beginClose
  endClose l := { l with connected := false }
  publish := publish
  acknowledges := acknowledges
  subscribe filter _ := subscribe filter
  unsubscribe := unsubscribe

end Loopback

end Uplink
