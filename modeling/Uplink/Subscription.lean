import Uplink.Filter
import Uplink.Message

/-!
# Subscriptions

Which subscriber wants which messages. A record is a filter with a guarantee, and each record has
the list of those who share it. A record that gets its first subscriber has to be made known to the
transport, and one that loses its last has to be taken back there.
-/

namespace Uplink

structure SubscriptionRecord where
  filter : String
  qos : Qos
deriving DecidableEq, Repr

namespace SubscriptionRecord

def ofApp (o : Options) (app topic : String) (qos : Qos) (control : Bool) : SubscriptionRecord :=
  ⟨o.topic none app topic control, qos⟩

/-- The record covers a topic. Its placeholders stand for any account and client. -/
def covers (o : Options) (r : SubscriptionRecord) (topic : String) : Bool :=
  Filter.matchesTopic o (Filter.localize o r.filter) topic

end SubscriptionRecord

/-- Records in the order in which they were made, each with its subscribers in theirs. -/
abbrev Subscriptions (σ : Type) := List (SubscriptionRecord × List σ)

namespace Subscriptions

variable {σ : Type} [DecidableEq σ]

/-- Add an element to the end of a list that it is not in. -/
def addNew (s : σ) (list : List σ) : List σ := if s ∈ list then list else list ++ [s]

def contains (r : SubscriptionRecord) (subs : Subscriptions σ) : Bool := subs.any fun e => e.1 == r

/-- Add a subscriber to a record. Gives whether the record is new. -/
def add (r : SubscriptionRecord) (s : σ) (subs : Subscriptions σ) : Bool × Subscriptions σ :=
  if contains r subs then
    (false, subs.map fun e => if e.1 = r then (e.1, addNew s e.2) else e)
  else (true, subs ++ [(r, [s])])

/-- Take a subscriber from all records. Gives the records that are gone for lack of subscribers. -/
def remove (s : σ) (subs : Subscriptions σ) : List SubscriptionRecord × Subscriptions σ :=
  let left := subs.map fun e => (e.1, e.2.filter (· != s))
  ((left.filter fun e => e.2.isEmpty).map (·.1), left.filter fun e => !e.2.isEmpty)

def records (subs : Subscriptions σ) : List SubscriptionRecord := subs.map (·.1)

def count (r : SubscriptionRecord) (subs : Subscriptions σ) : Nat :=
  ((subs.find? fun e => e.1 == r).map fun e => e.2.length).getD 0

/-- The subscribers that a message on a topic is for, each once, in the order of their first
record. -/
def recipients (o : Options) (topic : String) (subs : Subscriptions σ) : List σ :=
  ((subs.filter fun e => e.1.covers o topic).flatMap (·.2)).foldl (fun found s => addNew s found) []

end Subscriptions

end Uplink
