import Uplink.Number.Layout
import Uplink.SortedMap
import Uplink.Time.Calendar

/-!
# Payloads

What a message carries: named metrics of seven kinds, and optionally a time, a position and raw
bytes.
-/

namespace Uplink

open Number Time

inductive Metric where
  | bool : Bool → Metric
  | long : Int64 → Metric
  | int : Int32 → Metric
  | double : Double → Metric
  | float : Single → Metric
  | string : String → Metric
  | bytes : List UInt8 → Metric
deriving DecidableEq

namespace Metric

def asString? : Metric → Option String
  | string s => some s
  | _ => none

/-- The number of an integer of either width. -/
def asLong? : Metric → Option Int64
  | long v => some v
  | int v => some v.toInt64
  | _ => none

def asBool? : Metric → Option Bool
  | bool b => some b
  | _ => none

/-- A value for a reader. Of bytes only the number is shown. -/
def display : Metric → String
  | bool b => if b then "true" else "false"
  | long v => toString v.toInt
  | int v => toString v.toInt
  | double x => x.plain
  | float x => x.plain
  | string s => s
  | bytes bs => s!"<{bs.length} bytes>"

end Metric

structure Position where
  latitude : Option Double := none
  longitude : Option Double := none
  altitude : Option Double := none
  precision : Option Double := none
  heading : Option Double := none
  speed : Option Double := none
  timestamp : Option Instant := none
  satellites : Option Int32 := none
  status : Option Int32 := none
deriving DecidableEq, Inhabited

/-- A position of which only the two coordinates are known. -/
def Position.at (latitude longitude : Double) : Position :=
  { latitude := some latitude, longitude := some longitude }

structure Payload where
  timestamp : Option Instant := none
  position : Option Position := none
  metrics : SortedMap Metric := ∅
  body : Option (List UInt8) := none
deriving DecidableEq, Inhabited

namespace Payload

def empty : Payload := {}

def stamped (time : Instant) : Payload := { timestamp := some time }

def ofBody (body : List UInt8) : Payload := { body := some body }

/-- Add a metric, in place of one of the same name. -/
def add (p : Payload) (name : String) (value : Metric) : Payload :=
  { p with metrics := p.metrics.insert name value }

def addAll (p : Payload) (metrics : List (String × Metric)) : Payload :=
  metrics.foldl (fun p m => p.add m.1 m.2) p

def remove (p : Payload) (name : String) : Payload :=
  { p with metrics := p.metrics.erase name }

def metric? (p : Payload) (name : String) : Option Metric := p.metrics.get? name

theorem metric?_add (p : Payload) (name : String) (value : Metric) (n : String) :
    (p.add name value).metric? n = if name = n then some value else p.metric? n :=
  SortedMap.get?_insert p.metrics name value n

theorem metric?_addAll_of_forall_ne (p : Payload) {metrics : List (String × Metric)}
    {name : String} (h : ∀ m ∈ metrics, m.1 ≠ name) :
    (p.addAll metrics).metric? name = p.metric? name := by
  induction metrics generalizing p with
  | nil => rfl
  | cons m metrics ih =>
    obtain ⟨hm, hmetrics⟩ := List.forall_mem_cons.1 h
    rw [addAll, List.foldl_cons]
    exact (ih (p.add m.1 m.2) hmetrics).trans (by rw [metric?_add, if_neg hm])

/-- Of several metrics of one name the last one counts. -/
theorem metric?_addAll (p : Payload) (before : List (String × Metric)) (name : String)
    (value : Metric) {more : List (String × Metric)} (hmore : ∀ m ∈ more, m.1 ≠ name) :
    (p.addAll (before ++ (name, value) :: more)).metric? name = some value := by
  have hsplit : p.addAll (before ++ (name, value) :: more) =
      ((p.addAll before).add name value).addAll more := by
    simp only [addAll, List.foldl_append, List.foldl_cons]
  rw [hsplit, metric?_addAll_of_forall_ne _ hmore, metric?_add, if_pos rfl]

/-- Nothing but metrics is added. -/
theorem addAll_eq (p : Payload) (metrics : List (String × Metric)) :
    p.addAll metrics =
      { p with metrics := metrics.foldl (fun m e => m.insert e.1 e.2) p.metrics } := by
  induction metrics generalizing p with
  | nil => rfl
  | cons m metrics ih => exact ih (p.add m.1 m.2)

def string? (p : Payload) (name : String) : Option String :=
  (p.metric? name).bind Metric.asString?

/-- Neither metrics nor a byte of body. A time or a position alone counts for nothing. -/
def isEmpty (p : Payload) : Bool :=
  p.metrics.isEmpty && (p.body.getD []).isEmpty

end Payload

end Uplink
