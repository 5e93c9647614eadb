import Mathlib.Data.List.DropRight
import Mathlib.Data.List.Perm.Basic
import Uplink.Delivery.Packets

/-!
# What becomes of publishes

A publish waits, goes out and is confirmed, unless it is forgotten in between. Its fate can be told
from what was done after it was handed over and from which publishes were said to go out. At every
moment of every course, the answers of the packets are those that the fates of all publishes call
for, and the publishes that are not done with are those whose fate is still open.
-/

namespace Uplink.Delivery.Packets

/-! ## 1. Fates -/

/-- What was done, and what came of it. -/
inductive Entry where
  | pushed (q : Queued)
  | removed (id : Nat)
  | sent (packet : Nat) (publish : Option (Nat × String))
  | confirmed (packet : Nat) (publish : Option (Nat × String))
  | cleared (count : Nat)

namespace Entry

def pushed? : Entry → Option Queued
  | pushed q => some q
  | _ => none

def sent? : Entry → Option (Nat × String)
  | sent _ publish => publish
  | _ => none

def confirmed? : Entry → Option (Nat × String)
  | confirmed _ publish => publish
  | _ => none

def isCleared : Entry → Bool
  | cleared _ => true
  | _ => false

end Entry

/-- What has become of a publish. -/
inductive Fate where
  | waits
  /-- It was forgotten before it went out. -/
  | dropped
  /-- It went out, and that is all. -/
  | done
  /-- It went out as a packet that the broker has to confirm. -/
  | inFlight (packet : Nat)
  | confirmed
  /-- It was forgotten after it went out. -/
  | lost
deriving DecidableEq

namespace Fate

def going (q : Queued) (packet : Nat) : Fate :=
  if q.qos = .atMostOnce then done else inFlight packet

def next (q : Queued) : Entry → Fate → Fate
  | .removed id, waits => if id = q.id then dropped else waits
  | .sent packet (some (id, _)), waits => if id = q.id then going q packet else waits
  | .confirmed packet _, inFlight number => if packet = number then confirmed else inFlight number
  | .cleared _, waits => dropped
  | .cleared _, inFlight _ => lost
  | _, fate => fate

def wentOut : Fate → Bool
  | waits | dropped => false
  | done | inFlight _ | confirmed | lost => true

def packet? : Fate → Option Nat
  | inFlight packet => some packet
  | _ => none

theorem going_ne_waits (q : Queued) (packet : Nat) : going q packet ≠ waits := by
  unfold going
  split <;> nofun

theorem going_ne_confirmed (q : Queued) (packet : Nat) : going q packet ≠ confirmed := by
  unfold going
  split <;> nofun

theorem wentOut_going (q : Queued) (packet : Nat) : (going q packet).wentOut = true := by
  unfold going
  split <;> rfl

theorem packet?_going (q : Queued) (packet : Nat) :
    (going q packet).packet? = if q.qos = .atMostOnce then none else some packet := by
  unfold going
  split <;> rfl

theorem packet?_eq_none {fate : Fate} (h : fate.wentOut = false) : fate.packet? = none := by
  cases fate <;> first | rfl | cases h

end Fate

structure Life where
  publish : Queued
  fate : Fate := .waits

namespace Life

/-- How answers name a publish. -/
def name (l : Life) : Nat × String := (l.publish.id, l.publish.topic)

def next (e : Entry) (l : Life) : Life := { l with fate := l.fate.next l.publish e }

@[simp] theorem name_next (e : Entry) (l : Life) : (l.next e).name = l.name := rfl

def inFlight? (l : Life) : Option InFlight :=
  l.fate.packet?.map fun packet => ⟨packet, l.publish.id, l.publish.topic⟩

theorem any_inFlight? (l : Life) (packet : Nat) :
    l.inFlight?.any (·.packet == packet) = decide (l.fate = .inFlight packet) := by
  obtain ⟨q, fate⟩ := l
  cases fate <;> simp [inFlight?, Fate.packet?, beq_eq_decide]

end Life

/-- All publishes that were handed over, in that order. -/
def lives (log : List Entry) : List Life :=
  log.foldl
    (fun lives e => lives.map (Life.next e) ++ (e.pushed?.map fun q => ⟨q, .waits⟩).toList) []

/-- What was done since everything was forgotten. -/
def sinceCleared (log : List Entry) : List Entry := log.rtakeWhile fun e => !e.isCleared

/-! ## 2. Courses -/

/-- What was done from the beginning on, and the packets that this leaves. Numbers of publishes are
new when they are handed over, and numbers of packets are free when a publish goes out that has to
be confirmed. -/
inductive Course : List Entry → Packets → Prop
  | start : Course [] {}
  | push {log : List Entry} {p : Packets} (h : Course log p) (id : Nat) (topic : String) (qos : Qos)
    (isNew : ∀ q, .pushed q ∈ log → q.id ≠ id) :
    Course (log ++ [.pushed ⟨id, topic, qos⟩]) (p.push id topic qos)
  | remove {log : List Entry} {p : Packets} (h : Course log p) (id : Nat) :
    Course (log ++ [.removed id]) (p.remove id)
  | send {log : List Entry} {p : Packets} (h : Course log p) (packet : Nat)
    (isFree : ∀ q ∈ p.queued.head?, q.qos ≠ .atMostOnce → ∀ f ∈ p.inFlight, f.packet ≠ packet) :
    Course (log ++ [.sent packet (p.sent packet).1]) (p.sent packet).2
  | confirm {log : List Entry} {p : Packets} (h : Course log p) (packet : Nat) :
    Course (log ++ [.confirmed packet (p.confirmed packet).1]) (p.confirmed packet).2
  | clear {log : List Entry} {p : Packets} (h : Course log p) :
    Course (log ++ [.cleared p.clear.1]) p.clear.2

/-- What the packets answer and keep is what the fates of all publishes call for. -/
structure Pairs (log : List Entry) (p : Packets) : Prop where
  /-- Each publish has one fate. -/
  pushed : (lives log).map (·.publish) = log.filterMap Entry.pushed?
  nodup : ((lives log).map (·.publish.id)).Nodup
  /-- What went out is what was neither dropped nor still waits, once each and in order. -/
  sent : log.filterMap Entry.sent? = ((lives log).filter (·.fate.wentOut)).map Life.name
  /-- What goes out next is the first publish that waits. -/
  sends (packet : Nat) : (p.sent packet).1 = ((lives log).find? (·.fate = .waits)).map Life.name
  /-- What was confirmed was confirmed once. -/
  confirmed : (log.filterMap Entry.confirmed?).Perm
    (((lives log).filter (·.fate = .confirmed)).map Life.name)
  /-- A packet belongs to the publish that went out as it and has not been confirmed. -/
  confirms (packet : Nat) (publish : Nat × String) : (p.confirmed packet).1 = some publish ↔
    ∃ l ∈ lives log, l.fate = .inFlight packet ∧ l.name = publish
  /-- What asks for no confirmation gets none. -/
  unconfirmed : ∀ l ∈ lives log, l.publish.qos = .atMostOnce →
    l.fate ≠ .confirmed ∧ ∀ packet, l.fate ≠ .inFlight packet
  /-- What is not done with is what was handed over, less what was removed in time, went out
  without having to be confirmed, or was confirmed. -/
  pending : p.pending +
      ((lives (sinceCleared log)).countP (·.fate = .dropped) +
        (lives (sinceCleared log)).countP (·.fate = .done) +
        (lives (sinceCleared log)).countP (·.fate = .confirmed)) =
    ((sinceCleared log).filterMap Entry.pushed?).length

/-! ## 3. One entry -/

theorem lives_concat (log : List Entry) (e : Entry) : lives (log ++ [e]) =
    (lives log).map (Life.next e) ++ (e.pushed?.map fun q => ⟨q, .waits⟩).toList := by
  rw [lives, List.foldl_append, ← lives]
  rfl

theorem lives_of_not_pushed {e : Entry} (h : e.pushed? = none) (log : List Entry) :
    lives (log ++ [e]) = (lives log).map (Life.next e) := by
  rw [lives_concat, h]
  exact List.append_nil _

theorem lives_pushed (log : List Entry) (q : Queued) :
    lives (log ++ [.pushed q]) = lives log ++ [⟨q, .waits⟩] := by
  rw [lives_concat]
  exact congrArg (· ++ _) (List.map_id _)

theorem wentOut_next {e : Entry} (h : e.sent? = none) (l : Life) :
    (l.next e).fate.wentOut = l.fate.wentOut := by
  obtain ⟨q, fate⟩ := l
  cases fate <;> cases e <;> simp only [Life.next, Fate.next] <;> try rfl
  · split <;> rfl
  · next packet publish =>
    obtain rfl : publish = none := h
    rfl
  · split <;> rfl

theorem waits_of_next {e : Entry} {l : Life} (h : (l.next e).fate = .waits) : l.fate = .waits := by
  obtain ⟨q, fate⟩ := l
  cases fate <;> cases e <;> simp_all [Life.next, Fate.next]
  split at h <;> cases h

theorem unconfirmed_next {e : Entry} (h : e.sent? = none) {l : Life}
    (hl : l.fate ≠ .confirmed ∧ l.fate.packet? = none) :
    (l.next e).fate ≠ .confirmed ∧ (l.next e).fate.packet? = none := by
  obtain ⟨q, fate⟩ := l
  cases fate <;> cases e <;> simp_all [Life.next, Fate.next, Fate.packet?]
  · split <;> simp
  · next packet publish =>
    obtain rfl : publish = none := h
    simp

theorem map_next_eq_self {e : Entry} {list : List Life}
    (h : ∀ l ∈ list, l.fate.next l.publish e = l.fate) : list.map (Life.next e) = list :=
  (List.map_congr_left fun l hl => congrArg (Life.mk l.publish) (h l hl)).trans (List.map_id _)

theorem filterMap_concat {α β : Type} (f : α → Option β) (list : List α) (a : α) :
    (list ++ [a]).filterMap f = list.filterMap f ++ (f a).toList := by
  cases h : f a <;> simp [h]

/-- Whatever picks nothing behind an element picks at most this one after what stands before. -/
theorem filterMap_middle {α β : Type} {f : α → Option β} {behind : List α}
    (h : ∀ a ∈ behind, f a = none) (front : List α) (a : α) :
    (front ++ a :: behind).filterMap f = front.filterMap f ++ (f a).toList := by
  rw [List.append_cons, List.filterMap_append, List.filterMap_eq_nil_iff.2 h, List.append_nil,
    filterMap_concat]

/-- What packets keep, told from the fates of publishes. -/
structure Keeps (list : List Life) (p : Packets) : Prop where
  /-- Nothing goes out while something waits that was handed over earlier. -/
  inOrder : list.Pairwise fun l l' => l.fate = .waits → l'.fate.wentOut = false
  queued : p.queued = (list.filter (·.fate = .waits)).map (·.publish)
  inFlight : p.inFlight = list.filterMap Life.inFlight?
  /-- A packet belongs to one publish. -/
  packets : (list.filterMap (·.fate.packet?)).Nodup

namespace Keeps

variable {list front behind : List Life} {q : Queued} {p : Packets}

/-- The first publish that waits goes out next. All before it have gone out or were dropped, and
none behind it has gone out. -/
theorem exists_first (h : Keeps list p) {rest : List Queued} (hqueued : p.queued = q :: rest) :
    ∃ front behind, list = front ++ ⟨q, .waits⟩ :: behind ∧ (∀ l ∈ front, l.fate ≠ .waits) ∧
      ∀ l ∈ behind, l.fate.wentOut = false := by
  have hwaits := h.queued.symm.trans hqueued
  obtain ⟨l, list, hfilter, rfl, rfl⟩ := List.map_eq_cons_iff.1 hwaits
  obtain ⟨front, behind, rfl, hfront, hl, rfl⟩ := List.filter_eq_cons_iff.1 hfilter
  obtain ⟨q, fate⟩ := l
  obtain rfl : fate = .waits := by simpa using hl
  refine ⟨front, behind, rfl, by simpa using hfront, fun l hl => ?_⟩
  exact (List.pairwise_cons.1 (List.pairwise_append.1 h.inOrder).2.1).1 l hl rfl

theorem send (h : Keeps (front ++ ⟨q, .waits⟩ :: behind) p) (hfront : ∀ l ∈ front, l.fate ≠ .waits)
    (hbehind : ∀ l ∈ behind, l.fate.wentOut = false) {packet : Nat}
    (isFree : q.qos ≠ .atMostOnce → ∀ f ∈ p.inFlight, f.packet ≠ packet) :
    (p.sent packet).1 = some (q.id, q.topic) ∧
      Keeps (front ++ ⟨q, .going q packet⟩ :: behind) (p.sent packet).2 := by
  have hnone : front.filter (·.fate = .waits) = [] := by simpa using hfront
  -- Nothing behind has gone out, so the new packet comes last among those in flight.
  have hpacket : ∀ l ∈ behind, l.fate.packet? = none :=
    fun l hl => Fate.packet?_eq_none (hbehind l hl)
  have hbehind : ∀ l ∈ behind, l.inFlight? = none := fun l hl => by
    rw [Life.inFlight?, hpacket l hl]
    rfl
  obtain ⟨hinOrder, hqueued, hinFlight, hpackets⟩ := h
  rw [List.filter_append, hnone, List.nil_append, List.filter_cons_of_pos rfl, List.map_cons]
    at hqueued
  rw [filterMap_middle hbehind, show Life.inFlight? ⟨q, .waits⟩ = none from rfl,
    Option.toList_none, List.append_nil] at hinFlight
  rw [filterMap_middle hpacket, show Fate.packet? .waits = none from rfl,
    Option.toList_none, List.append_nil] at hpackets
  have hsent : p.sent packet = (some (q.id, q.topic),
      ⟨(behind.filter (·.fate = .waits)).map (·.publish), if q.qos = .atMostOnce then p.inFlight
        else without packet p.inFlight ++ [⟨packet, q.id, q.topic⟩]⟩) := by
    rw [Packets.sent, hqueued]
  rw [hsent]
  refine ⟨rfl, ?_, ?_, ?_, ?_⟩
  · obtain ⟨hpairs, hpairs', -⟩ := List.pairwise_append.1 hinOrder
    exact List.pairwise_append.2 ⟨hpairs, List.pairwise_cons.2 ⟨
      fun l _ hwaits => absurd hwaits (Fate.going_ne_waits q packet),
      (List.pairwise_cons.1 hpairs').2⟩, fun l hl l' _ hwaits => absurd hwaits (hfront l hl)⟩
  · rw [List.filter_append, hnone, List.nil_append, List.filter_cons_of_neg]
    simpa using Fate.going_ne_waits q packet
  · rw [filterMap_middle hbehind, ← hinFlight, Life.inFlight?, Fate.packet?_going]
    split
    · exact (List.append_nil _).symm
    · next hqos =>
      have hkept : without packet p.inFlight = p.inFlight :=
        List.filter_eq_self.2 (by simpa using isFree hqos)
      rw [hkept]
      rfl
  · rw [filterMap_middle hpacket, Fate.packet?_going]
    split
    · exact (List.append_nil _).symm ▸ hpackets
    · next hqos =>
      refine List.nodup_append.2 ⟨hpackets, by simp, fun number hmem other hother => ?_⟩
      obtain ⟨l, hl, hnumber⟩ := List.mem_filterMap.1 hmem
      rw [Option.toList_some, List.mem_singleton] at hother
      rw [hother]
      refine isFree hqos ⟨number, l.publish.id, l.publish.topic⟩ (hinFlight ▸ ?_)
      exact List.mem_filterMap.2 ⟨l, hl, by rw [Life.inFlight?, hnumber]; rfl⟩

end Keeps

/-- What packets keep and answered, told from the fates of all publishes. -/
structure Tells (log : List Entry) (p : Packets) : Prop extends Keeps (lives log) p where
  pushed : (lives log).map (·.publish) = log.filterMap Entry.pushed?
  nodup : ((lives log).map (·.publish.id)).Nodup
  sent : log.filterMap Entry.sent? = ((lives log).filter (·.fate.wentOut)).map Life.name
  confirmed : (log.filterMap Entry.confirmed?).Perm
    (((lives log).filter (·.fate = .confirmed)).map Life.name)
  unconfirmed : ∀ l ∈ lives log, l.publish.qos = .atMostOnce →
    l.fate ≠ .confirmed ∧ l.fate.packet? = none

namespace Tells

variable {log : List Entry} {p : Packets}

theorem start : Tells [] {} := by
  constructor
  · constructor <;> simp [lives]
  all_goals simp [lives]

theorem push (h : Tells log p) {q : Queued} (isNew : ∀ q', .pushed q' ∈ log → q'.id ≠ q.id) :
    Tells (log ++ [.pushed q]) (p.push q.id q.topic q.qos) := by
  -- Whoever has a fate was handed over before, and numbers are new.
  have hnew : ∀ l ∈ lives log, l.publish.id ≠ q.id := by
    intro l hl
    have hmem : l.publish ∈ log.filterMap Entry.pushed? := h.pushed ▸ List.mem_map_of_mem hl
    obtain ⟨e, he, hpushed⟩ := List.mem_filterMap.1 hmem
    cases e with
    | pushed q' =>
      cases hpushed
      exact isNew _ he
    | _ => cases hpushed
  have hlives := lives_pushed log q
  refine ⟨⟨?_, ?_, ?_, ?_⟩, ?_, ?_, ?_, ?_, ?_⟩
  · rw [hlives]
    exact List.pairwise_append.2 ⟨h.inOrder, List.pairwise_singleton .., by simp [Fate.wentOut]⟩
  · simp [hlives, Packets.push, h.queued]
  · simp [hlives, Packets.push, h.inFlight, Life.inFlight?, Fate.packet?]
  · simpa [hlives, Fate.packet?] using h.packets
  · simp [hlives, h.pushed, Entry.pushed?]
  · rw [hlives, List.map_append, List.nodup_append]
    refine ⟨h.nodup, by simp, fun id hid other hother => ?_⟩
    obtain ⟨l, hl, rfl⟩ := List.mem_map.1 hid
    rw [List.map_singleton, List.mem_singleton] at hother
    exact hother ▸ hnew l hl
  · simp [hlives, h.sent, Entry.sent?, Fate.wentOut]
  · rw [hlives, filterMap_concat]
    simpa [Entry.confirmed?] using h.confirmed
  · rw [hlives]
    intro l hl
    rcases List.mem_append.1 hl with hl | hl
    · exact h.unconfirmed l hl
    · rw [List.mem_singleton.1 hl]
      simp [Fate.packet?]

/-- An entry by which nothing goes out leaves publishes, their order and what went out as they
are. -/
theorem of_map {e : Entry} {p' : Packets} (h : Tells log p) (hpushed : e.pushed? = none)
    (hsent : e.sent? = none)
    (queued : p'.queued = ((lives log).filter fun l => (l.next e).fate = .waits).map (·.publish))
    (inFlight : p'.inFlight = (lives log).filterMap fun l => (l.next e).inFlight?)
    (packets : ((lives log).filterMap fun l => (l.next e).fate.packet?).Nodup)
    (confirmed : (log.filterMap Entry.confirmed? ++ e.confirmed?.toList).Perm
      (((lives log).filter fun l => (l.next e).fate = .confirmed).map Life.name)) :
    Tells (log ++ [e]) p' := by
  -- Every publish goes on from its fate, and none is added.
  have hlives := lives_of_not_pushed hpushed log
  refine ⟨⟨?_, ?_, ?_, ?_⟩, ?_, ?_, ?_, ?_, ?_⟩
  · rw [hlives, List.pairwise_map]
    refine h.inOrder.imp fun {l l'} hl hwaits => ?_
    rw [wentOut_next hsent]
    exact hl (waits_of_next hwaits)
  · rw [hlives, queued, List.filter_map, List.map_map]
    rfl
  · rw [hlives, inFlight, List.filterMap_map]
    rfl
  · rw [hlives, List.filterMap_map]
    exact packets
  · rw [hlives, List.map_map, filterMap_concat, hpushed, ← h.pushed]
    exact (List.append_nil _).symm
  · rw [hlives, List.map_map]
    exact h.nodup
  · rw [hlives, filterMap_concat, h.sent, hsent, List.filter_map, List.map_map]
    simp [Function.comp_def, wentOut_next hsent]
  · rw [hlives, filterMap_concat, List.filter_map, List.map_map]
    exact confirmed
  · rw [hlives, List.forall_mem_map]
    exact fun l hl hqos => unconfirmed_next hsent (h.unconfirmed l hl hqos)

theorem remove (h : Tells log p) (id : Nat) : Tells (log ++ [.removed id]) (p.remove id) := by
  have hwaits (l : Life) : decide ((l.next (.removed id)).fate = .waits) =
      (l.publish.id != id && decide (l.fate = .waits)) := by
    obtain ⟨q, fate⟩ := l
    cases fate <;> simp [Life.next, Fate.next]
    grind
  have hflight (l : Life) : (l.next (.removed id)).fate.packet? = l.fate.packet? := by
    obtain ⟨q, fate⟩ := l
    cases fate <;> simp [Life.next, Fate.next, Fate.packet?]
    grind
  have hconfirmed (l : Life) : (l.next (.removed id)).fate = .confirmed ↔ l.fate = .confirmed := by
    obtain ⟨q, fate⟩ := l
    cases fate <;> simp [Life.next, Fate.next]
    grind
  refine h.of_map rfl rfl ?_ ?_ ?_ ?_
  · simp [Packets.remove, h.queued, List.filter_map, Function.comp_def, hwaits,
      List.filter_filter]
  · simp only [Life.inFlight?, hflight]
    exact h.inFlight
  · simpa [hflight] using h.packets
  · simpa [Entry.confirmed?, hconfirmed] using h.confirmed

theorem clear (h : Tells log p) : Tells (log ++ [.cleared p.clear.1]) p.clear.2 := by
  generalize p.clear.1 = count
  have hwaits (l : Life) : (l.next (.cleared count)).fate ≠ .waits := by
    obtain ⟨q, fate⟩ := l
    cases fate <;> simp [Life.next, Fate.next]
  have hflight (l : Life) : (l.next (.cleared count)).fate.packet? = none := by
    obtain ⟨q, fate⟩ := l
    cases fate <;> simp [Life.next, Fate.next, Fate.packet?]
  have hconfirmed (l : Life) :
      (l.next (.cleared count)).fate = .confirmed ↔ l.fate = .confirmed := by
    obtain ⟨q, fate⟩ := l
    cases fate <;> simp [Life.next, Fate.next]
  refine h.of_map rfl rfl ?_ ?_ ?_ ?_
  · simp [Packets.clear, hwaits]
  · simp [Packets.clear, Life.inFlight?, hflight]
  · simp [hflight]
  · simpa [Entry.confirmed?, hconfirmed] using h.confirmed

theorem unique (h : Tells log p) {front behind : List Life} {l : Life} {packet : Nat}
    (hlives : lives log = front ++ l :: behind) (hl : l.fate = .inFlight packet) :
    ∀ l' ∈ behind, l'.fate ≠ .inFlight packet := by
  have hpackets := h.packets
  rw [hlives, List.filterMap_append, List.filterMap_cons_some (b := packet) (by rw [hl]; rfl)]
    at hpackets
  intro l' hl' hfate
  have hnew := (List.nodup_cons.1 (List.nodup_append.1 hpackets).2.1).1
  exact hnew (List.mem_filterMap.2 ⟨l', hl', by rw [hfate]; rfl⟩)

theorem confirmed_eq (h : Tells log p) (packet : Nat) :
    (p.confirmed packet).1 = ((lives log).find? (·.fate = .inFlight packet)).map Life.name := by
  have hfound : (p.confirmed packet).1 =
      (p.inFlight.find? (·.packet == packet)).map fun f => (f.id, f.topic) := by
    rw [Packets.confirmed]
    split <;> next hfind => rw [hfind]; rfl
  rw [hfound, h.inFlight, List.find?_filterMap]
  simp only [Life.any_inFlight?]
  cases hfind : (lives log).find? (·.fate = .inFlight packet) with
  | none => rfl
  | some l =>
    have hl : l.fate = .inFlight packet := by simpa using List.find?_some hfind
    simp [Life.inFlight?, hl, Fate.packet?, Life.name]

theorem confirm (h : Tells log p) (packet : Nat) :
    Tells (log ++ [.confirmed packet (p.confirmed packet).1]) (p.confirmed packet).2 := by
  have hwaits (l : Life) (publish : Option (Nat × String)) :
      (l.next (.confirmed packet publish)).fate = .waits ↔ l.fate = .waits := by
    obtain ⟨q, fate⟩ := l
    cases fate <;> simp [Life.next, Fate.next]
    grind
  have hflight (l : Life) (publish : Option (Nat × String)) :
      (l.next (.confirmed packet publish)).fate.packet? = l.fate.packet?.filter (· != packet) := by
    obtain ⟨q, fate⟩ := l
    cases fate <;> simp [Life.next, Fate.next, Fate.packet?, Option.filter]
    grind
  have hconfirmed (l : Life) (publish : Option (Nat × String)) :
      (l.next (.confirmed packet publish)).fate = .confirmed ↔
        l.fate = .confirmed ∨ l.fate = .inFlight packet := by
    obtain ⟨q, fate⟩ := l
    cases fate <;> simp [Life.next, Fate.next]
    grind
  have hrest : (p.confirmed packet).2 = { p with inFlight := without packet p.inFlight } := by
    rw [Packets.confirmed]
    split
    · next hfind =>
      rw [without, List.filter_eq_self.2]
      simpa using hfind
    · rfl
  refine h.of_map rfl rfl ?_ ?_ ?_ ?_
  · simp [hrest, hwaits, h.queued]
  · rw [hrest, without, h.inFlight, List.filter_filterMap]
    refine List.filterMap_congr fun l _ => ?_
    simp only [Life.inFlight?, hflight]
    exact Option.filter_map
  · have hrest := h.packets.filter (· != packet)
    rw [List.filter_filterMap] at hrest
    simp only [hflight]
    exact hrest
  · have hothers {list : List Life} (hlist : ∀ l ∈ list, l.fate ≠ .inFlight packet) :
        list.filter (fun l => l.fate = .confirmed ∨ l.fate = .inFlight packet) =
          list.filter (·.fate = .confirmed) :=
      List.filter_congr fun l hl => decide_eq_decide.2 (or_iff_left (hlist l hl))
    simp only [hconfirmed, Entry.confirmed?, h.confirmed_eq]
    cases hfind : (lives log).find? (·.fate = .inFlight packet) with
    | none =>
      rw [hothers (by simpa using hfind)]
      simpa using h.confirmed
    | some l =>
      -- The packet belongs to this publish alone. Confirmations come in any order, so what was
      -- confirmed is told from the fates only up to order.
      obtain ⟨hl, front, behind, hlives, hfront⟩ := List.find?_eq_some_iff_append.1 hfind
      replace hl : l.fate = .inFlight packet := by simpa using hl
      have hconfirmed := h.confirmed
      rw [hlives, List.filter_append, List.filter_cons_of_neg (by simp [hl]), List.map_append]
        at hconfirmed
      rw [hlives, List.filter_append, List.filter_cons_of_pos (by simp [hl]),
        hothers (by simpa using hfront), hothers (h.unique hlives hl), List.map_append,
        List.map_cons]
      exact (hconfirmed.append_right [l.name]).trans
        ((List.perm_append_singleton ..).trans List.perm_middle.symm)

theorem lives_sent (h : Tells log p) {q : Queued} {front behind : List Life} (packet : Nat)
    (hlives : lives log = front ++ ⟨q, .waits⟩ :: behind) (hfront : ∀ l ∈ front, l.fate ≠ .waits) :
    lives (log ++ [.sent packet (some (q.id, q.topic))]) =
      front ++ ⟨q, .going q packet⟩ :: behind := by
  have hnodup := h.nodup
  rw [hlives, List.map_append, List.map_cons] at hnodup
  have hbehind := (List.nodup_cons.1 (List.nodup_append.1 hnodup).2.1).1
  rw [lives_of_not_pushed rfl, hlives, List.map_append, List.map_cons, map_next_eq_self,
    map_next_eq_self]
  · simp [Life.next, Fate.next]
  · intro l hl
    have hne : q.id ≠ l.publish.id := fun hid => hbehind (List.mem_map.2 ⟨l, hl, hid.symm⟩)
    cases hfate : l.fate <;> simp [Fate.next, hne]
  · intro l hl
    cases hfate : l.fate with
    | waits => exact absurd hfate (hfront l hl)
    | _ => rfl

theorem send (h : Tells log p) (packet : Nat)
    (isFree : ∀ q ∈ p.queued.head?, q.qos ≠ .atMostOnce → ∀ f ∈ p.inFlight, f.packet ≠ packet) :
    Tells (log ++ [.sent packet (p.sent packet).1]) (p.sent packet).2 := by
  cases hqueued : p.queued with
  | nil =>
    have hsent : p.sent packet = (none, p) := by
      rw [Packets.sent, hqueued]
    have hnext (l : Life) : l.next (.sent packet none) = l := by
      obtain ⟨q, fate⟩ := l
      cases fate <;> rfl
    rw [hsent]
    refine h.of_map rfl rfl ?_ ?_ ?_ ?_ <;> simp only [hnext]
    · exact h.queued
    · exact h.inFlight
    · exact h.packets
    · simpa [Entry.confirmed?] using h.confirmed
  | cons q rest =>
    -- `of_map` does not apply: here something goes out, and where it stands in the list matters.
    obtain ⟨front, behind, hlives, hfront, hbehind⟩ := h.exists_first hqueued
    have hlives' := h.lives_sent packet hlives hfront
    obtain ⟨hkeeps, hpushed, hnodup, hsent, hconfirmed, hunconfirmed⟩ := h
    rw [hlives] at hkeeps hpushed hnodup hsent hconfirmed hunconfirmed
    obtain ⟨hanswer, hkeeps'⟩ := hkeeps.send hfront hbehind (isFree q (by simp [hqueued]))
    rw [hanswer]
    refine ⟨hlives' ▸ hkeeps', ?_, ?_, ?_, ?_, ?_⟩ <;> rw [hlives']
    · rw [filterMap_concat, ← hpushed]
      simp [Entry.pushed?]
    · simpa using hnodup
    · have hnone : behind.filter (·.fate.wentOut) = [] := by simpa using hbehind
      have hgoing := Fate.wentOut_going q packet
      rw [filterMap_concat, hsent, List.filter_append, List.filter_append,
        List.filter_cons_of_neg (by simp [Fate.wentOut]), List.filter_cons_of_pos (by exact hgoing),
        hnone]
      simp [Entry.sent?, Life.name]
    · rw [List.filter_append, List.filter_cons_of_neg (by simp)] at hconfirmed
      rw [filterMap_concat, List.filter_append,
        List.filter_cons_of_neg (by simpa using Fate.going_ne_confirmed q packet)]
      simpa [Entry.confirmed?] using hconfirmed
    · obtain ⟨hfront, hbehind⟩ := List.forall_mem_append.1 hunconfirmed
      refine List.forall_mem_append.2 ⟨hfront, List.forall_mem_cons.2 ⟨fun hqos => ?_,
        (List.forall_mem_cons.1 hbehind).2⟩⟩
      rw [Fate.packet?_going, if_pos hqos]
      exact ⟨Fate.going_ne_confirmed q packet, rfl⟩

end Tells

/-! ## 4. Whole courses -/

theorem Course.tells {log : List Entry} {p : Packets} (h : Course log p) : Tells log p := by
  induction h with
  | start => exact .start
  | push _ id topic qos isNew ih => exact ih.push isNew
  | remove _ id ih => exact ih.remove id
  | send _ packet isFree ih => exact ih.send packet isFree
  | confirm _ packet ih => exact ih.confirm packet
  | clear _ ih => exact ih.clear

theorem sinceCleared_concat (log : List Entry) (e : Entry) :
    sinceCleared (log ++ [e]) = if e.isCleared then [] else sinceCleared log ++ [e] := by
  rw [sinceCleared, List.rtakeWhile_concat, ← sinceCleared]
  cases e.isCleared <;> rfl

/-- Once everything was forgotten, packets are as if they had just begun. -/
theorem Course.sinceCleared {log : List Entry} {p : Packets} (h : Course log p) :
    Course (sinceCleared log) p := by
  induction h with
  | start => exact .start
  | push _ id topic qos isNew ih =>
    rw [sinceCleared_concat]
    exact ih.push id topic qos fun q hq => isNew q ((List.rtakeWhile_suffix ..).subset hq)
  | remove _ id ih =>
    rw [sinceCleared_concat]
    exact ih.remove id
  | send _ packet isFree ih =>
    rw [sinceCleared_concat]
    exact ih.send packet isFree
  | confirm _ packet ih =>
    rw [sinceCleared_concat]
    exact ih.confirm packet
  | clear _ ih =>
    rw [sinceCleared_concat]
    exact .start

/-- A publish that went out is forgotten only when everything is. -/
theorem ne_lost_next {e : Entry} (h : e.isCleared = false) {l : Life} (hl : l.fate ≠ .lost) :
    (l.next e).fate ≠ .lost := by
  obtain ⟨q, fate⟩ := l
  cases fate <;> cases e <;> simp_all [Life.next, Fate.next, Entry.isCleared] <;> grind [Fate.going]

theorem ne_lost_of_sinceCleared (log : List Entry) :
    ∀ l ∈ lives (sinceCleared log), l.fate ≠ .lost := by
  induction log using List.reverseRecOn with
  | nil => simp [lives, sinceCleared]
  | append_singleton log e ih =>
    rw [sinceCleared_concat]
    cases he : e.isCleared with
    | true => simp [lives]
    | false =>
      rw [if_neg (by simp), lives_concat]
      refine List.forall_mem_append.2 ⟨List.forall_mem_map.2 fun l hl => ?_, ?_⟩
      · exact ne_lost_next he (ih l hl)
      · cases e.pushed? <;> simp

theorem count_fates {list : List Life} (h : ∀ l ∈ list, l.fate ≠ .lost) :
    list.countP (·.fate = .waits) + list.countP (·.fate.packet?.isSome) +
      (list.countP (·.fate = .dropped) + list.countP (·.fate = .done) +
        list.countP (·.fate = .confirmed)) = list.length := by
  induction list with
  | nil => rfl
  | cons l list ih =>
    obtain ⟨hl, hlist⟩ := List.forall_mem_cons.1 h
    have hrest := ih hlist
    simp only [List.countP_cons, List.length_cons]
    cases hfate : l.fate with
    | lost => exact absurd hfate hl
    | _ =>
      simp [Fate.packet?] at hrest ⊢
      omega

/-- **Publishes and packets are paired without loss or mix-up.** -/
theorem Course.pairs {log : List Entry} {p : Packets} (h : Course log p) : Pairs log p := by
  have ht := h.tells
  refine ⟨ht.pushed, ht.nodup, ht.sent, fun packet => ?_, ht.confirmed, fun packet publish => ?_,
    fun l hl hqos => ?_, ?_⟩
  · have hsent : (p.sent packet).1 = p.queued.head?.map fun q => (q.id, q.topic) := by
      rw [Packets.sent]
      cases p.queued <;> rfl
    rw [hsent, ht.queued, List.head?_map, List.head?_filter, Option.map_map]
    rfl
  · rw [ht.confirmed_eq, Option.map_eq_some_iff]
    constructor
    · rintro ⟨l, hfind, rfl⟩
      exact ⟨l, List.mem_of_find?_eq_some hfind, by simpa using List.find?_some hfind, rfl⟩
    · -- Whichever publish is in flight as this packet is the first one, for there is no other.
      rintro ⟨l, hl, hfate, rfl⟩
      obtain ⟨l', hfind⟩ : ∃ l', (lives log).find? (·.fate = .inFlight packet) = some l' :=
        Option.isSome_iff_exists.1 (List.find?_isSome.2 ⟨l, hl, by simp [hfate]⟩)
      obtain ⟨hl', front, behind, hlives, hfront⟩ := List.find?_eq_some_iff_append.1 hfind
      have hbehind := ht.unique hlives (by simpa using hl')
      rw [hlives] at hl
      rcases List.mem_append.1 hl with hl | hl
      · exact absurd hfate (by simpa using hfront l hl)
      · rcases List.mem_cons.1 hl with rfl | hl
        · exact ⟨l, hfind, rfl⟩
        · exact absurd hfate (hbehind l hl)
  · obtain ⟨hconfirmed, hnone⟩ := ht.unconfirmed l hl hqos
    refine ⟨hconfirmed, fun packet hfate => ?_⟩
    rw [hfate] at hnone
    cases hnone
  · -- Nothing was lost since everything was forgotten, so five fates are left to count.
    have hrecent := h.sinceCleared.tells
    have hcount := count_fates (ne_lost_of_sinceCleared log)
    rw [← hrecent.pushed, List.length_map, ← hcount, pending, hrecent.queued, hrecent.inFlight,
      List.length_map, ← List.countP_eq_length_filter, List.length_filterMap_eq_countP]
    simp [Life.inFlight?]

/-- A publish goes out as a packet whose number was confirmed before, after another one was taken
back and a third one asked for no confirmation. -/
theorem pairs_with_reused_packet :
    let log : List Entry := [.pushed ⟨1, "a", .atLeastOnce⟩, .pushed ⟨2, "b", .atLeastOnce⟩,
      .pushed ⟨3, "c", .atMostOnce⟩, .pushed ⟨4, "d", .exactlyOnce⟩, .sent 7 (some (1, "a")),
      .removed 2, .confirmed 7 (some (1, "a")), .sent 0 (some (3, "c")), .sent 7 (some (4, "d"))]
    Course log ⟨[], [⟨7, 4, "d"⟩]⟩ ∧ Pairs log ⟨[], [⟨7, 4, "d"⟩]⟩ := by
  intro log
  have hcourse : Course log ⟨[], [⟨7, 4, "d"⟩]⟩ :=
    .send (.send (.confirm (.remove (.send (.push (.push (.push (.push .start 1 "a" .atLeastOnce
      (by simp)) 2 "b" .atLeastOnce (by simp)) 3 "c" .atMostOnce (by simp)) 4 "d" .exactlyOnce
      (by simp)) 7 (by decide)) 2) 7) 0 (by decide)) 7 (by decide)
  exact ⟨hcourse, hcourse.pairs⟩

end Uplink.Delivery.Packets
