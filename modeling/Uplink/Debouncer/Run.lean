import Uplink.Agenda
import Uplink.Debouncer.Basic

/-!
# A debouncer in time

A debouncer together with a sink that takes some time for each message. Several batches may be on
their way to the sink at a time.
-/

namespace Uplink.Debouncer

inductive SinkNote (μ : Type) where
  | began (kind : CertificateKind) (message : μ) (time : Nat)
  | ended (kind : CertificateKind) (time : Nat)

/-- A batch on its way. The sink is busy with its first message until a time. -/
structure Flush (μ : Type) where
  generation : Nat
  batch : List (CertificateKind × μ)
  freeAt : Nat

/-- A debouncer, its sink, and the activities of its windows by generation. -/
structure Run (μ : Type) where
  debouncer : Debouncer μ := {}
  alive : Bool := true
  sink : Bool := true
  sinkDelay : Nat := 0
  flushes : List (Flush μ) := []
  notes : List (SinkNote μ) := []
  agenda : Agenda Nat := {}

namespace Run

variable {μ : Type}

def note (n : SinkNote μ) (r : Run μ) : Run μ := { r with notes := r.notes ++ [n] }

/-- Hand messages to the sink until it makes one wait. -/
def hand (generation : Nat) : List (CertificateKind × μ) → Run μ → Run μ
  | [], r => r
  | (kind, message) :: rest, r =>
    let r := r.note (.began kind message r.agenda.now)
    if r.sinkDelay = 0 then hand generation rest r
    else
      let freeAt := r.agenda.now + r.sinkDelay
      { r with
        flushes := r.flushes ++ [⟨generation, (kind, message) :: rest, freeAt⟩]
        agenda := r.agenda.alarm freeAt generation }

def turn (generation : Nat) (r : Run μ) : Run μ :=
  match r.flushes.find? (·.generation == generation) with
  -- The activity of a window whose batch is on its way has nothing to do with windows any more.
  | some flush =>
    if r.agenda.now < flush.freeAt then r
    else
      let r := { r with flushes := r.flushes.filter (·.generation != generation) }
      match flush.batch with
      | [] => r
      | (kind, _) :: rest => hand generation rest (r.note (.ended kind r.agenda.now))
  | none =>
    match r.debouncer.glance generation r.agenda.now with
    | (.stopped, _) => r
    | (.waits time, debouncer) =>
      { r with debouncer, agenda := (r.agenda.silence generation).alarm time generation }
    | (.due, debouncer) =>
      -- The batch is taken also if the sink is not there any more.
      let batch := debouncer.batch
      let r := { r with debouncer := debouncer.flushed }
      if r.sink then hand generation batch r else r

instance : Timed (Run μ) Nat where
  agenda := agenda
  withAgenda a r := { r with agenda := a }
  turn := turn

def schedule (kind : CertificateKind) (message : μ) (length : Nat) (r : Run μ) : Run μ :=
  if r.alive then
    let debouncer := r.debouncer.schedule kind message length
    { r with debouncer, agenda := r.agenda.wake debouncer.generations }
  else r

def cancel (r : Run μ) : Run μ := { r with debouncer := r.debouncer.cancel }

def discard (r : Run μ) : Run μ := { r.cancel with alive := false }

end Run

end Uplink.Debouncer
