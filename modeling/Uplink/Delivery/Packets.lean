import Uplink.Qos

/-!
# Publishes and their packets

A publish gets the number of its packet only when it goes out. Publishes go out in the order in
which they were handed over, so the oldest one that has not gone out is the one a number belongs
to. Those that the broker confirms are remembered under their number until it does.
-/

namespace Uplink.Delivery

/-- A publish that was handed over. -/
structure Queued where
  id : Nat
  topic : String
  qos : Qos
deriving DecidableEq, Repr

/-- A publish that went out and is not confirmed. -/
structure InFlight where
  packet : Nat
  id : Nat
  topic : String
deriving DecidableEq, Repr

/-- Publishes that have not gone out, from the oldest on, and those that are not confirmed. -/
structure Packets where
  queued : List Queued := []
  inFlight : List InFlight := []
deriving DecidableEq, Repr

namespace Packets

def push (p : Packets) (id : Nat) (topic : String) (qos : Qos) : Packets :=
  { p with queued := p.queued ++ [⟨id, topic, qos⟩] }

def remove (p : Packets) (id : Nat) : Packets :=
  { p with queued := p.queued.filter fun q => q.id != id }

def without (packet : Nat) (inFlight : List InFlight) : List InFlight :=
  inFlight.filter fun f => f.packet != packet

/-- A packet went out. Gives the publish it belongs to. -/
def sent (p : Packets) (packet : Nat) : Option (Nat × String) × Packets :=
  match p.queued with
  | [] => (none, p)
  | q :: rest =>
    let inFlight :=
      -- What the broker does not confirm is done with. Any other publish takes the place of one
      -- that had the same number.
      if q.qos = .atMostOnce then p.inFlight
      else without packet p.inFlight ++ [⟨packet, q.id, q.topic⟩]
    (some (q.id, q.topic), { queued := rest, inFlight })

/-- A packet was confirmed. Gives the publish it belongs to. -/
def confirmed (p : Packets) (packet : Nat) : Option (Nat × String) × Packets :=
  match p.inFlight.find? fun f => f.packet == packet with
  | none => (none, p)
  | some f => (some (f.id, f.topic), { p with inFlight := without packet p.inFlight })

def pending (p : Packets) : Nat := p.queued.length + p.inFlight.length

/-- Forget everything. Gives how many publishes that were. -/
def clear (p : Packets) : Nat × Packets := (p.pending, {})

end Packets

end Uplink.Delivery
