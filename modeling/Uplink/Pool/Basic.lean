/-!
# Worker pools

A fixed number of workers take jobs from a queue, in the order in which the jobs came. The workers
stand in line for the queue: the first in line takes the next job as soon as there is one, and goes
to the end of the line when its job is over. A job that fails is over like any other.

A pool that is shut down takes no more jobs. It serves its queue until a deadline; after that, its
workers are dismissed, one after the other, and their jobs stopped.
-/

namespace Uplink

inductive PoolFault where
  | full
  | shutDown
deriving DecidableEq, Repr

def PoolFault.message : PoolFault → String
  | full => "Dispatch queue is full"
  | shutDown => "Dispatch pool is shut down"

inductive Worker where
  /-- Neither in line nor at work. -/
  | free
  | inLine
  | busy (job : Nat)
  /-- It left. If it was dismissed, it left a job behind. -/
  | gone (left : Option Nat)
deriving DecidableEq, Repr

/-- The end of a pool: its deadline, and the workers that have not been seen off. -/
structure Drain where
  deadline : Nat
  workers : List Nat
deriving DecidableEq, Repr

/-- A pool with jobs of a type. Jobs that were started have numbers. -/
structure Pool (κ : Type) where
  workers : List Worker
  queue : List κ := []
  /-- The workers in line, from the first on. -/
  line : List Nat := []
  /-- The jobs that are not over. -/
  active : List (Nat × κ) := []
  /-- How many jobs were started. -/
  started : Nat := 0
  closed : Bool := false
  /-- The workers that are to leave at their next turn. -/
  dismissed : List Nat := []
  drain : Option Drain := none

namespace Pool

variable {κ : Type}

/-- The places in the queue for each worker. -/
def queueDepth : Nat := 64

/-- A pool has at least one worker. -/
def ofSize (size : Nat) : Pool κ := { workers := List.replicate (max size 1) .free }

def size (p : Pool κ) : Nat := p.workers.length

inductive Strand where
  | worker (index : Nat)
  | job (number : Nat)
  /-- Who waits for the end of the pool. -/
  | closer
deriving DecidableEq, Repr

def crew (p : Pool κ) : List Strand := (List.range p.size).map .worker

def worker (p : Pool κ) (i : Nat) : Worker := p.workers.getD i (.gone none)

def setWorker (i : Nat) (w : Worker) (p : Pool κ) : Pool κ :=
  { p with workers := p.workers.set i w }

theorem size_setWorker (p : Pool κ) (i : Nat) (w : Worker) : (p.setWorker i w).size = p.size :=
  List.length_set

def first (p : Pool κ) : List Strand := (p.line.head?.map .worker).toList

def leaveLine (i : Nat) (p : Pool κ) : List Strand × Pool κ :=
  let left := { p with line := p.line.filter (· != i) }
  -- Only if the first one leaves does the line get another first one, who is told so.
  (if p.line.head? = some i then left.first else [], left)

/-- Put a job into the queue. Gives who can take it. -/
def submit (job : κ) (p : Pool κ) : Except PoolFault (List Strand × Pool κ) :=
  if p.closed then .error .shutDown
  else if queueDepth * p.size ≤ p.queue.length then .error .full
  else
    let p := { p with queue := p.queue ++ [job] }
    .ok (p.first, p)

/-- Who waits for the end of the pool, if it is a worker that this waits for. -/
def closerFor (i : Nat) (p : Pool κ) : List Strand :=
  match p.drain with
  | some d => if d.workers.head? = some i then [.closer] else []
  | none => []

def leave (i : Nat) (left : Option Nat) (p : Pool κ) : List Strand × Pool κ :=
  let (next, p) := p.leaveLine i
  (next ++ p.closerFor i, p.setWorker i (.gone left))

def take (i : Nat) (p : Pool κ) : List Strand × Pool κ :=
  if p.line.head? = some i then
    match p.queue with
    | job :: queue =>
      let (next, p) := p.leaveLine i
      let p := { p with
        queue
        active := p.active ++ [(p.started, job)]
        started := p.started + 1 }
      (next ++ [.job (p.started - 1)], p.setWorker i (.busy (p.started - 1)))
    -- To a pool that is closed no job comes any more.
    | [] => if p.closed then p.leave i none else ([], p)
  else ([], p)

def isActive (p : Pool κ) (number : Nat) : Bool := p.active.any (·.1 == number)

def turn (i : Nat) (p : Pool κ) : List Strand × Pool κ :=
  let getInLine := fun (_ : Unit) => ({ p with line := p.line ++ [i] }.setWorker i .inLine).take i
  match p.worker i with
  | .gone _ => ([], p)
  | .free => if i ∈ p.dismissed then p.leave i none else getInLine ()
  | .inLine => if i ∈ p.dismissed then p.leave i none else p.take i
  | .busy job =>
    -- Who is dismissed at work leaves its job behind, also if that is over by now.
    if i ∈ p.dismissed then p.leave i (some job)
    else if p.isActive job then ([], p)
    else getInLine ()

def stop (number : Nat) (p : Pool κ) : Pool κ :=
  { p with active := p.active.filter (·.1 != number) }

/-- A job came to its end. Gives the worker that it kept busy. -/
def finish (number : Nat) (p : Pool κ) : List Strand × Pool κ :=
  let waiting := (List.range p.size).filter fun i => p.worker i == .busy number
  (waiting.map .worker, p.stop number)

/-- Take no more jobs, and have those that are there done until a deadline. -/
def close (deadline : Nat) (p : Pool κ) : List Strand × Pool κ :=
  (p.first, { p with closed := true, drain := some ⟨deadline, List.range p.size⟩ })

/-- See workers off until one is still there. -/
def seeOff (deadline now : Nat) : List Nat → Pool κ → List Strand × Pool κ
  | [], p => ([], { p with drain := none })
  | i :: rest, p =>
    match p.worker i with
    -- A job that was left behind is stopped when its worker has been seen off, not before.
    | .gone left => seeOff deadline now rest (left.elim p p.stop)
    | _ =>
      let p := { p with drain := some ⟨deadline, i :: rest⟩ }
      -- The others are dismissed when this one has left.
      if deadline ≤ now then ([.worker i], { p with dismissed := p.dismissed ++ [i] })
      else ([], p)

/-- The turn of who waits for the end of the pool. It has come when nothing is left to wait for. -/
def closing (now : Nat) (p : Pool κ) : List Strand × Pool κ :=
  match p.drain with
  | none => ([], p)
  | some d => seeOff d.deadline now d.workers p

/-- Stop everything at once. -/
def abandon (p : Pool κ) : Pool κ :=
  -- A pool that was shut down comes to its end as it was told.
  if p.closed then p
  else { p with
    closed := true
    workers := p.workers.map fun
      | .busy job => .gone (some job)
      | .gone left => .gone left
      | _ => .gone none
    line := []
    queue := []
    active := [] }

end Pool

end Uplink
