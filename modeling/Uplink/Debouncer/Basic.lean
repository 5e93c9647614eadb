import Uplink.Certificate

/-!
# Debouncing

What is asked for several times within a window is done once. The last message of each kind is
kept until the window after the last request is over; then all of them are handed over together,
in the order of their kinds.
-/

namespace Uplink

/-- A window that is running. It begins with the first turn of its activity. -/
structure Window where
  generation : Nat
  length : Nat
  closesAt : Option Nat := none
deriving DecidableEq, Repr

/-- The messages that are kept, and the window that is running. -/
structure Debouncer (μ : Type) where
  kept : CertificateKind → Option μ := fun _ => none
  window : Option Window := none
  generations : Nat := 0

namespace Debouncer

variable {μ : Type}

def isPending (d : Debouncer μ) (kind : CertificateKind) : Bool := (d.kept kind).isSome

/-- All messages that are kept, in the order of their kinds. -/
def batch (d : Debouncer μ) : List (CertificateKind × μ) :=
  [CertificateKind.birth, .appList, .disconnect].filterMap fun kind =>
    (d.kept kind).map (kind, ·)

def pending (d : Debouncer μ) : List CertificateKind := d.batch.map (·.1)

theorem pending_eq_nil_iff {d : Debouncer μ} : d.pending = [] ↔ ∀ kind, d.kept kind = none := by
  rw [pending, List.map_eq_nil_iff, batch, List.filterMap_eq_nil_iff]
  constructor
  · intro h kind
    have hmem : kind ∈ [CertificateKind.birth, .appList, .disconnect] := by cases kind <;> simp
    exact Option.map_eq_none_iff.1 (h kind hmem)
  · intro h kind _
    rw [h kind]
    rfl

/-- Keep a message as the last of its kind. -/
def schedule (kind : CertificateKind) (message : μ) (length : Nat) (d : Debouncer μ) :
    Debouncer μ where
  kept k := if k = kind then some message else d.kept k
  -- A new window takes the place of the one that is running, whose activity finds itself stopped.
  window := some { generation := d.generations + 1, length }
  generations := d.generations + 1

/-- Drop all messages and stop the window. -/
def cancel (d : Debouncer μ) : Debouncer μ := { generations := d.generations + 1 }

def flushed (d : Debouncer μ) : Debouncer μ := { generations := d.generations }

/-- What the activity of a window has to do in its turn. -/
inductive Glance where
  | stopped
  | waits (until_ : Nat)
  | due
deriving DecidableEq, Repr

def glance (generation now : Nat) (d : Debouncer μ) : Glance × Debouncer μ :=
  match d.window with
  | some w =>
    if w.generation = generation then
      -- The first turn of the activity is the one from which the window is counted.
      let closesAt := w.closesAt.getD (now + w.length)
      if closesAt ≤ now then (.due, d)
      else (.waits closesAt, { d with window := some { w with closesAt := some closesAt } })
    else (.stopped, d)
  | none => (.stopped, d)

/-- The three ways in which the activity of a window can find it. -/
theorem glance_cases (generation now : Nat) (d : Debouncer μ) :
    (d.glance generation now = (.stopped, d) ∧ ∀ w, d.window = some w → w.generation ≠ generation) ∨
      ∃ w, d.window = some w ∧ w.generation = generation ∧
        (w.closesAt.getD (now + w.length) ≤ now ∧ d.glance generation now = (.due, d) ∨
          now < w.closesAt.getD (now + w.length) ∧
            d.glance generation now = (.waits (w.closesAt.getD (now + w.length)),
              { d with window := some { w with
                  closesAt := some (w.closesAt.getD (now + w.length)) } })) := by
  rw [glance]
  cases hw : d.window with
  | none => exact .inl ⟨rfl, nofun⟩
  | some w =>
    dsimp only
    by_cases hgeneration : w.generation = generation
    · rw [if_pos hgeneration]
      refine .inr ⟨w, rfl, hgeneration, ?_⟩
      split
      · next hle => exact .inl ⟨hle, rfl⟩
      · next hle => exact .inr ⟨by omega, rfl⟩
    · rw [if_neg hgeneration]
      refine .inl ⟨rfl, ?_⟩
      rintro _ ⟨⟩
      exact hgeneration

theorem kept_glance (generation now : Nat) (d : Debouncer μ) :
    (d.glance generation now).2.kept = d.kept := by
  obtain ⟨hglance, -⟩ | ⟨_, -, -, ⟨-, hglance⟩ | ⟨-, hglance⟩⟩ := glance_cases generation now d <;>
    rw [hglance]

end Debouncer

end Uplink
