import Uplink.Agenda
import Uplink.Pool.Basic

/-!
# A pool in time

A pool whose jobs note when they start, take some time, and note when they end.
-/

namespace Uplink.Pool

/-- A job that takes some time and may fail at the end. -/
structure Chore where
  name : String
  ms : Nat := 0
  fails : Bool := false
deriving DecidableEq, Repr

inductive ChoreNote where
  | started (name : String)
  | ended (name : String) (time : Nat)
deriving DecidableEq, Repr

def ChoreNote.isStart : ChoreNote → Bool
  | started _ => true
  | ended .. => false

/-- A pool with the chores that it is at. -/
structure Run where
  pool : Pool Chore
  /-- Who waits for the end of the pool. -/
  closer : Option Caller := none
  /-- Who waited for it. -/
  finished : List Caller := []
  /-- The pool was done away with. -/
  dropped : Bool := false
  /-- When chores that were started end. -/
  ends : List (Nat × Nat) := []
  notes : List ChoreNote := []
  agenda : Agenda Strand := {}

namespace Run

def ofSize (size : Nat) : Run :=
  let pool := Pool.ofSize size
  { pool, agenda := ({} : Agenda Strand).wakeAll pool.crew }

def go (result : List Strand × Pool Chore) (r : Run) : Run :=
  { r with pool := result.2, agenda := r.agenda.wakeAll result.1 }

def note (n : ChoreNote) (r : Run) : Run := { r with notes := r.notes ++ [n] }

def finish (number : Nat) (chore : Chore) (r : Run) : Run :=
  -- To the pool it makes no difference whether a chore fails.
  let r := if chore.fails then r else r.note (.ended chore.name r.agenda.now)
  r.go (r.pool.finish number)

def work (number : Nat) (chore : Chore) (r : Run) : Run :=
  match r.ends.lookup number with
  | some time => if r.agenda.now < time then r else r.finish number chore
  | none =>
    let r := r.note (.started chore.name)
    let time := r.agenda.now + chore.ms
    if chore.ms = 0 then r.finish number chore
    else { r with
      ends := r.ends ++ [(number, time)]
      agenda := r.agenda.alarm time (.job number) }

def close (r : Run) : Run :=
  let r := r.go (r.pool.closing r.agenda.now)
  let agenda := r.agenda.silence .closer
  match r.pool.drain with
  | some d => { r with agenda := if d.deadline ≤ agenda.now then agenda
                                 else agenda.alarm d.deadline .closer }
  | none => { r with agenda, closer := none, finished := r.finished ++ r.closer.toList }

def turn : Strand → Run → Run
  | .worker i, r => r.go (r.pool.turn i)
  | .job number, r =>
    match r.pool.active.lookup number with
    | some chore => r.work number chore
    | none => r
  | .closer, r => r.close

instance : Timed Run Strand where
  agenda := agenda
  withAgenda a r := { r with agenda := a }
  turn := turn

def submit (chore : Chore) (r : Run) : Except PoolFault Run := do
  return r.go (← r.pool.submit chore)

/-- Put chores into the queue. Gives what was wrong with each. -/
def submitAll : List Chore → Run → List (Option PoolFault) × Run
  | [], r => ([], r)
  | chore :: chores, r =>
    let (fault, r) := match r.submit chore with
      | .ok r => (none, r)
      | .error fault => (some fault, r)
    let (faults, r) := submitAll chores r
    (fault :: faults, r)

/-- The end of the pool has come, or nobody waits for it. -/
def isOver (r : Run) : Bool := r.pool.drain.isNone

/-- Shut the pool down, with some time for what is left to do. -/
def shutDown (caller : Caller) (grace : Nat) (r : Run) : Run :=
  -- Who asks for it again has nothing to wait for.
  if r.pool.closed then { r with finished := r.finished ++ [caller] }
  else
    let r := { r with closer := some caller }.go (r.pool.close (r.agenda.now + grace))
    if caller.isSome then r.close else Timed.await .closer isOver r

def drop (r : Run) : Run := { r with pool := r.pool.abandon, dropped := true }

end Run

end Uplink.Pool
