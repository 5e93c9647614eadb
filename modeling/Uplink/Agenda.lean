/-!
# Agendas

Activities take turns, one at a time, and a turn takes no time. An activity whose turn is due is
ready; turns are taken in the order in which activities became ready. Time, counted in milliseconds,
passes only while nobody is ready: it goes on to the earliest alarm, which makes the activity that
set it ready again.

One activity may be in the foreground. It lets others that are ready go first, but not more than
`patience` of them in a row. When time has passed, it is the first.
-/

namespace Uplink

/-- How many others go first at most before the activity in the foreground takes a turn. -/
def patience : Nat := 61

/-- The time, whose turn it is, and who is waiting until when. -/
structure Agenda (κ : Type) where
  now : Nat := 0
  ready : List κ := []
  /-- In the order in which they were set. -/
  alarms : List (Nat × κ) := []
  foreground : Option κ := none
  /-- How many others went first in a row. -/
  yielded : Nat := 0
deriving Repr

namespace Agenda

variable {κ : Type} [DecidableEq κ]

instance : Inhabited (Agenda κ) := ⟨{}⟩

def inForeground (a : Agenda κ) (k : κ) : Bool := a.foreground == some k

def wake (k : κ) (a : Agenda κ) : Agenda κ :=
  if k ∈ a.ready then a else { a with ready := a.ready ++ [k] }

def wakeAll (ks : List κ) (a : Agenda κ) : Agenda κ := ks.foldl (fun a k => a.wake k) a

def alarm (time : Nat) (k : κ) (a : Agenda κ) : Agenda κ :=
  { a with alarms := a.alarms ++ [(time, k)] }

def silence (k : κ) (a : Agenda κ) : Agenda κ :=
  { a with alarms := a.alarms.filter (·.2 != k) }

def nextAlarm? (a : Agenda κ) : Option Nat := (a.alarms.map (·.1)).min?

/-- Let the time come at which alarms ring. Nobody goes before the activity in the foreground. -/
def ring (time : Nat) (a : Agenda κ) : Agenda κ :=
  let due := (a.alarms.filter (·.1 ≤ time)).map (·.2)
  { a with now := time, alarms := a.alarms.filter (time < ·.1), yielded := patience }.wakeAll due

/-- Whose turn it is, and what is left to do after it. -/
def next? (a : Agenda κ) : Option (κ × Agenda κ) :=
  let others := a.ready.filter (!a.inForeground ·)
  match a.foreground.filter (· ∈ a.ready), others with
  | none, [] => none
  | some own, [] => some (own, { a with ready := [], yielded := 0 })
  -- Without anybody to yield to, the count begins anew when patience would be over.
  | none, k :: rest =>
    some (k, { a with ready := rest, yielded := a.yielded % patience + 1 })
  | some own, k :: rest =>
    if a.yielded < patience then
      some (k, { a with ready := rest ++ [own], yielded := a.yielded + 1 })
    else some (own, { a with ready := others, yielded := 0 })

end Agenda

/-- Who makes a call: an activity in the background by its name, or the one in the foreground. -/
abbrev Caller := Option String

class Timed (ω : Type) (κ : outParam Type) where
  agenda : ω → Agenda κ
  withAgenda : Agenda κ → ω → ω
  turn : κ → ω → ω

namespace Timed

variable {ω κ : Type} [Timed ω κ]

def plan (f : Agenda κ → Agenda κ) (w : ω) : ω := withAgenda (f (agenda w)) w

def now (w : ω) : Nat := (agenda w).now

variable [DecidableEq κ]

def step? (w : ω) : Option ω :=
  (agenda w).next?.map fun (k, agenda) => turn k (withAgenda agenda w)

/-- The world after the next turn or, when nobody is ready, after the next alarm has rung that may
be waited for. Nothing comes after a goal. -/
def next? (goal : ω → Bool) (mayWait : Nat → Bool) (w : ω) : Option ω :=
  if goal w then none
  else match step? w with
    | some next => some next
    | none => ((agenda w).nextAlarm?.filter mayWait).map fun time => plan (·.ring time) w

/-- One world comes to another. -/
inductive Reaches (goal : ω → Bool) (mayWait : Nat → Bool) (w : ω) : ω → Prop where
  | refl : Reaches goal mayWait w w
  | step {v next : ω} (h : Reaches goal mayWait w v) (hnext : next? goal mayWait v = some next) :
    Reaches goal mayWait w next

structure EndsIn (goal : ω → Bool) (mayWait : Nat → Bool) (w v : ω) : Prop where
  reaches : Reaches goal mayWait w v
  ended : next? goal mayWait v = none

/-- Go on from a world that has been reached, or end there. -/
def goOn (goal : ω → Bool) (mayWait : Nat → Bool) (w : ω) (v : {v // Reaches goal mayWait w v}) :
    Option ({v // Reaches goal mayWait w v} ⊕ Option {v // EndsIn goal mayWait w v}) :=
  match h : next? goal mayWait v.1 with
  | some next => some (.inl ⟨next, v.2.step h⟩)
  | none => some (.inr (some ⟨v.1, v.2, h⟩))

/-- Take turns, and let time pass up to the alarms that may be waited for, until there is nothing
left to do or a goal is reached. A world that never comes to an end has no result. -/
def drive (goal : ω → Bool) (mayWait : Nat → Bool) (w : ω) : Option ω :=
  have : Nonempty (Option {v // EndsIn goal mayWait w v}) := ⟨none⟩
  (repeatM (goOn goal mayWait w) ⟨w, .refl⟩).join.map (·.1)

theorem drive_eq_some_iff {goal : ω → Bool} {mayWait : Nat → Bool} {w v : ω} :
    drive goal mayWait w = some v ↔ EndsIn goal mayWait w v := by
  constructor
  · intro h
    obtain ⟨⟨v', hv'⟩, -, rfl⟩ := Option.map_eq_some_iff.1 h
    exact hv'
  · rintro ⟨hreaches, hended⟩
    have : Nonempty (Option {v // EndsIn goal mayWait w v}) := ⟨none⟩
    -- The loop from the start is the loop from every world that is reached.
    have hloop : repeatM (goOn goal mayWait w) ⟨w, .refl⟩
        = repeatM (goOn goal mayWait w) ⟨v, hreaches⟩ := by
      clear hended
      induction hreaches with
      | refl => rfl
      | step hreaches hnext ih =>
        rw [ih, repeatM_eq_of_monadTail, repeatM.body, goOn]
        split
        · next next' h =>
          obtain rfl := Option.some.inj (h.symm.trans hnext)
          rfl
        · next h => exact absurd (h.symm.trans hnext) (by simp)
    rw [drive, hloop, repeatM_eq_of_monadTail, repeatM.body, goOn]
    split
    · next h => exact absurd (h.symm.trans hended) (by simp)
    · rfl

def settle (w : ω) : ω := (drive (fun _ => false) (fun _ => false) w).getD w

/-- Let time pass. Alarms that ring at its end do so before it is over. -/
def pass (ms : Nat) (w : ω) : ω :=
  let time := now w + ms
  plan (fun a => { a with now := time }) ((drive (fun _ => false) (· ≤ time) w).getD w)

/-- Let time pass up to a moment. Who is woken at that moment has not had a turn yet. -/
def passUntil (time : Nat) (w : ω) : ω :=
  if time ≤ now w then w
  else plan (·.ring time) ((drive (fun _ => false) (· < time) w).getD w)

/-- An activity takes a turn in the foreground, and the world goes on until it has reached its
goal. -/
def await (k : κ) (goal : ω → Bool) (w : ω) : ω :=
  let begun := turn k (plan (fun a => { a with foreground := some k, yielded := 0 }) w)
  plan (fun a => { a with foreground := none }) ((drive goal (fun _ => true) begun).getD begun)

end Timed

end Uplink
