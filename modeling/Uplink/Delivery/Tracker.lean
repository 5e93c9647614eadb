import Uplink.Qos

/-!
# Tracking a delivery

One publish at a time is tracked. Its publisher takes a ticket before the message is handed over,
and then waits for the acknowledgement of the number that the message got. Acknowledgements that
come in between are kept. Who takes a ticket takes the place of the publisher before.
-/

namespace Uplink.Delivery

/-- How far a message got. -/
inductive Acknowledgement where
  /-- It left the gateway. -/
  | published
  /-- The broker has it. -/
  | confirmed
deriving DecidableEq, Repr

/-- An acknowledgement ends the wait for a message with a guarantee. -/
def Acknowledgement.clears (qos : Qos) : Acknowledgement → Bool
  | confirmed => true
  | published => qos == .atMostOnce

/-- How a wait ended. -/
inductive Outcome where
  | confirmed
  | timedOut
  /-- Another publish took the place of this one. -/
  | superseded
deriving DecidableEq, Repr

def Outcome.name : Outcome → String
  | confirmed => "Confirmed"
  | timedOut => "TimedOut"
  | superseded => "Superseded"

/-- The right to have one publish tracked. -/
structure Ticket where
  generation : Nat
deriving DecidableEq, Repr

/-- The publish that is tracked. -/
inductive Slot where
  | idle
  /-- A ticket was taken, and these acknowledgements came since. -/
  | armed (ticket : Ticket) (qos : Qos) (early : List (Nat × Acknowledgement))
  /-- The acknowledgement of a number is awaited. -/
  | awaiting (ticket : Ticket) (qos : Qos) (id : Nat)
deriving DecidableEq, Repr

/-- The publish that is tracked, the last one that was acknowledged, and how many there were. -/
structure Tracker where
  slot : Slot := .idle
  resolved : Option Ticket := none
  generations : Nat := 0
deriving DecidableEq, Repr

/-- How many acknowledgements are kept for a number that is not known yet. -/
def earlyLimit : Nat := 64

/-- Add to a list that keeps the latest entries only. -/
def keepLatest {α : Type} (limit : Nat) (a : α) (list : List α) : List α :=
  (if limit ≤ list.length then list.tail else list) ++ [a]

namespace Tracker

def tracked (t : Tracker) : Option Nat :=
  match t.slot with
  | .awaiting _ _ id => some id
  | _ => none

def awaits (t : Tracker) (ticket : Ticket) : Bool :=
  match t.slot with
  | .awaiting current _ _ => current == ticket
  | _ => false

def arm (qos : Qos) (t : Tracker) : Ticket × Tracker :=
  let ticket := ⟨t.generations + 1⟩
  (ticket, { t with slot := .armed ticket qos [], generations := t.generations + 1 })

def disarm (ticket : Ticket) (t : Tracker) : Tracker :=
  match t.slot with
  | .armed current _ _ => if current = ticket then { t with slot := .idle } else t
  | _ => t

def settleFor (ticket : Ticket) (t : Tracker) : Tracker :=
  { t with slot := .idle, resolved := some ticket }

/-- Use a ticket to wait for a number. Gives the outcome if it is known already. -/
def record (ticket : Ticket) (id : Nat) (t : Tracker) : Option Outcome × Tracker :=
  match t.slot with
  | .armed current qos early =>
    if current = ticket then
      -- The acknowledgement may have come before the number was known.
      if early.any fun (other, ack) => other == id && ack.clears qos then
        (some .confirmed, t.settleFor ticket)
      else (none, { t with slot := .awaiting ticket qos id })
    else (some .superseded, t)
  | _ => (some .superseded, t)

/-- An acknowledgement comes. Gives whether it ended the wait. -/
def resolve (id : Nat) (ack : Acknowledgement) (t : Tracker) : Bool × Tracker :=
  match t.slot with
  | .awaiting ticket qos current =>
    if current = id ∧ ack.clears qos then (true, t.settleFor ticket) else (false, t)
  | .armed ticket qos early =>
    (false, { t with slot := .armed ticket qos (keepLatest earlyLimit (id, ack) early) })
  | .idle => (false, t)

/-- The outcome for a publisher that is no longer the one that waits. -/
def outcome (t : Tracker) (ticket : Ticket) : Outcome :=
  if t.resolved = some ticket then .confirmed else .superseded

def verdict? (t : Tracker) (ticket : Ticket) : Option Outcome :=
  if t.awaits ticket then none else some (t.outcome ticket)

/-- The time of a publisher is up. -/
def expire (ticket : Ticket) (t : Tracker) : Outcome × Tracker :=
  -- An acknowledgement that has come goes before the time that is up.
  if t.awaits ticket ∧ t.resolved ≠ some ticket then (.timedOut, { t with slot := .idle })
  else (t.outcome ticket, t)

def poll (ticket : Ticket) (deadline now : Nat) (t : Tracker) : Option Outcome × Tracker :=
  match t.verdict? ticket with
  | some outcome => (some outcome, t)
  | none =>
    -- Nothing is known yet, so it depends on the time whether the wait goes on.
    if deadline ≤ now then
      let (outcome, t) := t.expire ticket
      (some outcome, t)
    else (none, t)

def begin (ticket : Ticket) (id deadline now : Nat) (t : Tracker) : Option Outcome × Tracker :=
  match t.record ticket id with
  | (some outcome, t) => (some outcome, t)
  | (none, t) => t.poll ticket deadline now

end Tracker

end Uplink.Delivery
