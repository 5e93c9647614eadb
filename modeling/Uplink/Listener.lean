/-!
# Sets of listeners

Those who want to be told when something happens, in the order in which they asked. An event is
told to all who were in the set when it happened, whatever they do to the set when they are told.
-/

namespace Uplink

inductive ConnectionEvent where
  | established
  | disconnected
  | lost
deriving DecidableEq, Repr

def ConnectionEvent.name : ConnectionEvent → String
  | established => "established"
  | disconnected => "disconnected"
  | lost => "lost"

/-- Listeners, none of them twice. -/
structure ListenerSet (α : Type) where
  members : List α
  nodup : members.Nodup

namespace ListenerSet

variable {α : Type}

def empty : ListenerSet α := ⟨[], .nil⟩

instance : EmptyCollection (ListenerSet α) := ⟨empty⟩

instance : Inhabited (ListenerSet α) := ⟨empty⟩

variable [DecidableEq α]

/-- Add a listener at the end. Gives whether it was not there before. -/
def add (a : α) (set : ListenerSet α) : Bool × ListenerSet α :=
  if h : a ∈ set.members then (false, set)
  else (true, ⟨set.members ++ [a], List.nodup_append.2
    ⟨set.nodup, by simp, fun x hx y hy => by
      rintro rfl
      exact h (by simp_all)⟩⟩)

def remove (a : α) (set : ListenerSet α) : Bool × ListenerSet α :=
  (set.members.contains a, ⟨set.members.filter (· != a), set.nodup.filter _⟩)

def size (set : ListenerSet α) : Nat := set.members.length

/-- What a listener does when it is told something. To fail changes nothing for the others. -/
inductive Reaction (α : Type) where
  | nothing
  | fails
  /-- Take a listener out, then add one. -/
  | edits (gone added : Option α)
deriving DecidableEq, Repr

def react (set : ListenerSet α) : Reaction α → ListenerSet α
  | .edits gone added =>
    let set := gone.elim set fun a => (set.remove a).2
    added.elim set fun a => (set.add a).2
  | _ => set

/-- Tell all listeners something. Gives those who were told, in order, and the set after all their
reactions. -/
def notify (reaction : α → Reaction α) (set : ListenerSet α) : List α × ListenerSet α :=
  (set.members, set.members.foldl (fun set a => set.react (reaction a)) set)

end ListenerSet

end Uplink
