/-!
# Delivery guarantees

What a publish or a subscription asks of the broker.
-/

namespace Uplink

/-- How often a message may arrive. -/
inductive Qos where
  | atMostOnce
  | atLeastOnce
  | exactlyOnce
deriving DecidableEq, Repr, Inhabited

namespace Qos

/-- The number that stands for a guarantee on the wire and in options. -/
def level : Qos → Nat
  | atMostOnce => 0
  | atLeastOnce => 1
  | exactlyOnce => 2

def ofLevel? : Nat → Option Qos
  | 0 => some atMostOnce
  | 1 => some atLeastOnce
  | 2 => some exactlyOnce
  | _ => none

@[simp] theorem ofLevel?_level (q : Qos) : ofLevel? q.level = some q := by
  cases q <;> rfl

theorem level_of_ofLevel? {n : Nat} {q : Qos} (h : ofLevel? n = some q) : q.level = n := by
  unfold ofLevel? at h
  split at h <;> cases h <;> rfl

end Qos

end Uplink
