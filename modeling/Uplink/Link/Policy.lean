/-!
# When to connect again

A link that is lost is taken up again after a delay that grows with the number of attempts, and
perhaps not for ever.
-/

namespace Uplink.Link

/-- How a link is taken up again. -/
structure Policy where
  /-- How many attempts are made; there is no limit without a number. -/
  maxAttempts : Option Nat := none
  /-- The delays before the first attempts, in milliseconds. -/
  pattern : List Nat := [250, 500, 1000, 2500, 5000]
  /-- The delay before all further attempts. -/
  sustained : Nat := 10000
deriving DecidableEq, Repr

inductive Decision where
  | proceed (attempt delayMs : Nat)
  | shutdownRequested
  | attemptsExceeded
deriving DecidableEq, Repr

namespace Policy

/-- The delay before an attempt. Attempts are counted from 1; before that the first delay holds. -/
def delay (p : Policy) (attempt : Nat) : Nat := p.pattern[attempt - 1]?.getD p.sustained

def isExhausted (p : Policy) (attempts : Nat) : Bool :=
  match p.maxAttempts with
  | some limit => limit ≤ attempts
  | none => false

def decide (p : Policy) (attempts : Nat) (shutdown : Bool) : Decision :=
  if shutdown then .shutdownRequested
  else if p.isExhausted attempts then .attemptsExceeded
  else .proceed (attempts + 1) (p.delay (attempts + 1))

end Policy

inductive State where
  | idle
  | connecting
  | connected
  | disconnected (reason : String)
  | reconnecting (attempt : Nat)
  | permanentlyDisconnected (reason : String)
deriving DecidableEq, Repr, Inhabited

namespace State

def canPublish : State → Bool
  | connected => true
  | _ => false

def isConnected : State → Bool := canPublish

def isIdle : State → Bool
  | idle => true
  | _ => false

def isPermanentlyDisconnected : State → Bool
  | permanentlyDisconnected _ => true
  | _ => false

end State

end Uplink.Link
