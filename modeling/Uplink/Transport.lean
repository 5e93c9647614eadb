import Uplink.Link.Error
import Uplink.Qos

/-!
# Transports

What a gateway needs of what carries its messages. A transport tells the gateway when it is
connected, before it closes and when it has closed; each operation here is one of the moments
between which that is told.
-/

namespace Uplink

/-- A message as it is handed to a transport. -/
structure Outbound where
  topic : String
  payload : List UInt8
  qos : Qos
  retain : Bool
  priority : Nat
deriving DecidableEq, Repr

inductive Connecting where
  /-- There is a new connection, of which the gateway is told. -/
  | established
  /-- There was a connection already. -/
  | already
deriving DecidableEq, Repr

/-- A carrier of messages with states of a type. -/
class Transport (σ : Type) where
  isConnected : σ → Bool
  connect : σ → Except LinkError Connecting × σ
  /-- Begin to disconnect. Unless this fails, the gateway is told so that it can take its leave. -/
  beginClose : σ → Except LinkError Unit × σ
  /-- Be disconnected, of which the gateway is told. -/
  endClose : σ → σ
  /-- Take a message and give it a number. -/
  publish : Outbound → σ → Except LinkError Nat × σ
  /-- Messages that are taken now are acknowledged at once. -/
  acknowledges : σ → Bool
  subscribe : String → Qos → σ → Except LinkError Unit × σ
  unsubscribe : String → σ → Except LinkError Unit × σ

end Uplink
