import Uplink.Agenda
import Uplink.Delivery.Tracker

/-!
# Publishers in time

A tracker together with the publishers that wait on it.
-/

namespace Uplink.Delivery

structure Publisher where
  ticket : Ticket
  id : Nat
  timeout : Nat
  /-- Known once it waits. -/
  deadline : Option Nat := none
deriving Repr

/-- Publishers by name, and the outcomes of those that are done. -/
structure Publishers where
  tracker : Tracker := {}
  waiting : List (Caller × Publisher) := []
  finished : List (Caller × Outcome) := []
  agenda : Agenda Caller := {}

namespace Publishers

def change (f : Tracker → Tracker) (p : Publishers) : Publishers :=
  let tracker := f p.tracker
  -- Who waited with its ticket until now is woken.
  let freed := p.waiting.filter fun (_, w) =>
    p.tracker.awaits w.ticket && !tracker.awaits w.ticket
  { p with tracker, agenda := p.agenda.wakeAll (freed.map (·.1)) }

def arm (qos : Qos) (p : Publishers) : Ticket × Publishers :=
  ((p.tracker.arm qos).1, p.change fun t => (t.arm qos).2)

def disarm (ticket : Ticket) (p : Publishers) : Publishers := p.change (·.disarm ticket)

/-- An acknowledgement comes. Gives whether it ended the wait. -/
def resolve (id : Nat) (ack : Acknowledgement) (p : Publishers) : Bool × Publishers :=
  ((p.tracker.resolve id ack).1, p.change fun t => (t.resolve id ack).2)

/-- Acknowledgements come. Gives how many of them ended a wait. -/
def resolveAll (ack : Acknowledgement) : List Nat → Publishers → Nat × Publishers
  | [], p => (0, p)
  | id :: ids, p =>
    let (resolved, p) := p.resolve id ack
    let (count, p) := resolveAll ack ids p
    (resolved.toNat + count, p)

def finish (k : Caller) (outcome : Outcome) (p : Publishers) : Publishers :=
  { p with
    waiting := p.waiting.filter (·.1 != k)
    finished := p.finished ++ [(k, outcome)]
    agenda := p.agenda.silence k }

def turn (k : Caller) (p : Publishers) : Publishers :=
  match p.waiting.lookup k with
  | none => p
  | some w =>
    let now := p.agenda.now
    -- The first turn of a publisher is the one in which it uses its ticket.
    let deadline := w.deadline.getD (now + w.timeout)
    let (outcome, tracker) :=
      if w.deadline.isSome then p.tracker.poll w.ticket deadline now
      else p.tracker.begin w.ticket w.id deadline now
    let p := { p with tracker }
    match outcome with
    | some outcome => p.finish k outcome
    | none =>
      if w.deadline.isSome then p
      else { p with
        waiting := p.waiting.map fun e =>
          if e.1 = k then (k, { w with deadline := some deadline }) else e
        agenda := p.agenda.alarm deadline k }

instance : Timed Publishers Caller where
  agenda := agenda
  withAgenda a p := { p with agenda := a }
  turn := turn

def isDone (k : Caller) (p : Publishers) : Bool := (p.waiting.lookup k).isNone

def wait (k : Caller) (w : Publisher) (p : Publishers) : Publishers :=
  let p := { p with waiting := p.waiting ++ [(k, w)] }
  if k.isSome then { p with agenda := p.agenda.wake k } else Timed.await k (·.isDone k) p

end Publishers

end Uplink.Delivery
