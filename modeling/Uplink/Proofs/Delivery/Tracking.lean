import Mathlib.Data.List.Induction
import Mathlib.Logic.Function.Basic
import Uplink.Delivery.Tracker

/-!
# What publishers are told

Any number of publishers share one tracker. Each of them takes its ticket, uses it, and looks for
its outcome in steps of its own; between two steps of one publisher others take theirs, and
acknowledgements come. A history is a list of such steps in the order in which they happened. What
a publisher is told can be read off the history: the steps since it took its ticket, and the steps
since it used it.
-/

namespace Uplink.Delivery

/-! ## 1. What the steps of a tracker do -/

theorem mem_keepLatest {α : Type} {limit : Nat} {a b : α} {list : List α}
    (h : b ∈ keepLatest limit a list) : b ∈ list ∨ b = a := by
  rcases List.mem_append.1 h with hold | hnew
  · split at hold
    · exact .inl (List.mem_of_mem_tail hold)
    · exact .inl hold
  · exact .inr (List.mem_singleton.1 hnew)

namespace Tracker

variable (t : Tracker) (ticket : Ticket) (id : Nat)

theorem awaits_eq_true_iff :
    t.awaits ticket = true ↔ ∃ qos id, t.slot = .awaiting ticket qos id := by
  cases hslot : t.slot <;> simp [awaits, hslot]

theorem tracked_eq_some_iff :
    t.tracked = some id ↔ ∃ ticket qos, t.slot = .awaiting ticket qos id := by
  cases hslot : t.slot <;> simp [tracked, hslot]

/-- Whoever uses the ticket that was taken last learns that the acknowledgement has come already, or
waits. Any other ticket is of no use. -/
theorem record_cases :
    (∃ qos early, t.slot = .armed ticket qos early ∧
      (∃ ack : Acknowledgement, (id, ack) ∈ early ∧ ack.clears qos = true) ∧
      t.record ticket id = (some .confirmed, t.settleFor ticket)) ∨
    (∃ qos early, t.slot = .armed ticket qos early ∧
      t.record ticket id = (none, { t with slot := .awaiting ticket qos id })) ∨
    t.record ticket id = (some .superseded, t) := by
  cases hslot : t.slot with
  | armed current qos early =>
    by_cases hcurrent : current = ticket
    · subst hcurrent
      by_cases hcame : early.any fun entry => entry.1 == id && entry.2.clears qos
      · refine .inl ⟨qos, early, rfl, ?_, by simp [record, hslot, hcame]⟩
        obtain ⟨⟨other, ack⟩, hmem, hack⟩ := List.any_eq_true.1 hcame
        simp only [Bool.and_eq_true, beq_iff_eq] at hack
        exact ⟨ack, hack.1 ▸ hmem, hack.2⟩
      · exact .inr (.inl ⟨qos, early, rfl, by simp [record, hslot, hcame]⟩)
    · -- The slot is for another ticket.
      exact .inr (.inr (by simp [record, hslot, hcurrent]))
  | idle => exact .inr (.inr (by simp [record, hslot]))
  | awaiting => exact .inr (.inr (by simp [record, hslot]))

/-- An acknowledgement ends the wait for its number, is kept for a number that is not known yet, or
changes nothing. -/
theorem resolve_cases (ack : Acknowledgement) :
    (∃ ticket qos, t.slot = .awaiting ticket qos id ∧ ack.clears qos = true ∧
      t.resolve id ack = (true, t.settleFor ticket)) ∨
    (∃ ticket qos early, t.slot = .armed ticket qos early ∧
      t.resolve id ack =
        (false, { t with slot := .armed ticket qos (keepLatest earlyLimit (id, ack) early) })) ∨
    ((∀ ticket qos early, t.slot ≠ .armed ticket qos early) ∧
      (∀ ticket qos, t.slot = .awaiting ticket qos id → ack.clears qos = false) ∧
      t.resolve id ack = (false, t)) := by
  cases hslot : t.slot with
  | idle => exact .inr (.inr (by simp [resolve, hslot]))
  | armed ticket qos early =>
    exact .inr (.inl ⟨ticket, qos, early, rfl, by simp [resolve, hslot]⟩)
  | awaiting ticket qos current =>
    -- It has to be of the number that is awaited, and to go far enough for the guarantee.
    by_cases hends : current = id ∧ ack.clears qos = true
    · obtain ⟨rfl, hclears⟩ := hends
      exact .inl ⟨ticket, qos, rfl, hclears, by simp [resolve, hslot, hclears]⟩
    · refine .inr (.inr ⟨by simp, ?_, by simp [resolve, hslot, hends]⟩)
      intro ticket' qos' heq
      cases heq
      simpa using hends

/-- Time is up for the publisher that waits. To any other it makes no difference. -/
theorem expire_cases :
    (∃ qos id, t.slot = .awaiting ticket qos id ∧
      t.expire ticket = (.timedOut, { t with slot := .idle })) ∨
    ((t.awaits ticket = true → t.resolved = some ticket) ∧
      t.expire ticket = (t.outcome ticket, t)) := by
  by_cases hwaits : t.awaits ticket = true ∧ t.resolved ≠ some ticket
  · obtain ⟨qos, id, hslot⟩ := (t.awaits_eq_true_iff ticket).1 hwaits.1
    exact .inl ⟨qos, id, hslot, by simp [expire, hwaits]⟩
  · exact .inr ⟨fun h => by_contra fun hne => hwaits ⟨h, hne⟩, by rw [expire, if_neg hwaits]⟩

theorem disarm_cases :
    (t.disarm ticket).slot = .idle ∧ t.disarm ticket = { t with slot := .idle } ∨
      t.disarm ticket = t := by
  rw [disarm]
  split
  · split
    · exact .inl ⟨rfl, rfl⟩
    · exact .inr rfl
  · exact .inr rfl

end Tracker

/-! ## 2. Histories of a tracker -/

/-- A tracker, and the numbers that are waited for. -/
structure Tracking where
  tracker : Tracker := {}
  /-- The number for which the publisher with a ticket waits. -/
  waiting : Ticket → Option Nat := fun _ => none

/-- What may happen next. -/
inductive Event where
  | arm (qos : Qos)
  | disarm (ticket : Ticket)
  /-- A publisher uses its ticket. Unless it is told something at once, it waits from now on. -/
  | record (ticket : Ticket) (id : Nat)
  /-- A publisher that waits takes a look. -/
  | wake (ticket : Ticket)
  /-- The time of a publisher that waits is up. -/
  | expire (ticket : Ticket)
  | resolve (id : Nat) (ack : Acknowledgement)
deriving DecidableEq

/-- What the publisher with a ticket is told, and what comes of the tracker. -/
def Event.happen : Event → Tracking → Option (Ticket × Outcome) × Tracking
  | .arm qos, s => (none, { s with tracker := (s.tracker.arm qos).2 })
  | .disarm ticket, s => (none, { s with tracker := s.tracker.disarm ticket })
  | .record ticket id, s =>
    match s.tracker.record ticket id with
    | (some outcome, tracker) => (some (ticket, outcome), { s with tracker })
    | (none, tracker) => (none, ⟨tracker, Function.update s.waiting ticket (some id)⟩)
  | .wake ticket, s =>
    match s.waiting ticket, s.tracker.verdict? ticket with
    | some _, some outcome =>
      (some (ticket, outcome), { s with waiting := Function.update s.waiting ticket none })
    | _, _ => (none, s)
  | .expire ticket, s =>
    match s.waiting ticket, s.tracker.expire ticket with
    | some _, (outcome, tracker) =>
      (some (ticket, outcome), ⟨tracker, Function.update s.waiting ticket none⟩)
    | none, _ => (none, s)
  | .resolve id ack, s => (none, { s with tracker := (s.tracker.resolve id ack).2 })

def Event.told (e : Event) (s : Tracking) : Option (Ticket × Outcome) := (e.happen s).1

def Event.apply (e : Event) (s : Tracking) : Tracking := (e.happen s).2

def after (events : List Event) : Tracking := events.foldl (fun s e => e.apply s) {}

@[simp] theorem after_concat (events : List Event) (e : Event) :
    after (events ++ [e]) = e.apply (after events) := by
  simp [after]

/-- The delivery of a publisher is acknowledged, of one that waits or of one that is about to. -/
def Event.settles : Event → Tracking → Bool
  | .record ticket id, s => (s.tracker.record ticket id).1 == some .confirmed
  | .resolve id ack, s => (s.tracker.resolve id ack).1
  | .arm _, _ | .disarm _, _ | .wake _, _ | .expire _, _ => false

/-- What may become of a tracker in one event, and whether a delivery is acknowledged in it. -/
inductive Tracker.Becomes (t : Tracker) : Bool → Tracker → Prop where
  | same : Becomes t false t
  | arms (qos : Qos) : Becomes t false (t.arm qos).2
  /-- An acknowledgement is kept for whoever is about to give its number. -/
  | keeps {ticket : Ticket} {qos : Qos} {early : List (Nat × Acknowledgement)}
      (h : t.slot = .armed ticket qos early) (entry : Nat × Acknowledgement) :
      Becomes t false { t with slot := .armed ticket qos (keepLatest earlyLimit entry early) }
  | waits {ticket : Ticket} {qos : Qos} {early : List (Nat × Acknowledgement)}
      (h : t.slot = .armed ticket qos early) (id : Nat) :
      Becomes t false { t with slot := .awaiting ticket qos id }
  | settles {ticket : Ticket}
      (h : (∃ qos early, t.slot = .armed ticket qos early) ∨
        ∃ qos id, t.slot = .awaiting ticket qos id) : Becomes t true (t.settleFor ticket)
  | leaves : Becomes t false { t with slot := .idle }

theorem Event.becomes (e : Event) (s : Tracking) :
    s.tracker.Becomes (e.settles s) (e.apply s).tracker := by
  cases e with
  | arm qos => exact .arms qos
  | disarm ticket =>
    rw [settles, apply, happen]
    obtain ⟨-, heq⟩ | heq := s.tracker.disarm_cases ticket <;> rw [heq]
    · exact .leaves
    · exact .same
  | record ticket id =>
    rw [settles, apply, happen]
    obtain ⟨qos, early, hslot, -, heq⟩ | ⟨qos, early, hslot, heq⟩ | heq :=
      s.tracker.record_cases ticket id <;> rw [heq]
    · exact .settles (.inl ⟨qos, early, hslot⟩)
    · exact .waits hslot id
    · exact .same
  | wake ticket =>
    -- Who looks changes nothing but its own wait.
    rw [settles, apply, happen]
    split <;> exact .same
  | expire ticket =>
    rw [settles, apply, happen]
    split
    · next heq =>
      obtain ⟨qos, id, -, hexpire⟩ | ⟨-, hexpire⟩ := s.tracker.expire_cases ticket <;>
        rw [hexpire] at heq <;> cases heq
      · exact .leaves
      · exact .same
    · exact .same
  | resolve id ack =>
    rw [settles, apply, happen]
    obtain ⟨ticket, qos, hslot, -, heq⟩ | ⟨ticket, qos, early, hslot, heq⟩ | ⟨-, -, heq⟩ :=
      s.tracker.resolve_cases id ack <;> rw [heq]
    · exact .settles (.inr ⟨qos, id, hslot⟩)
    · exact .keeps hslot (id, ack)
    · exact .same

namespace Tracker.Becomes

variable {t t' : Tracker} {settled : Bool} {ticket : Ticket}

theorem generations_le (h : t.Becomes settled t') : t.generations ≤ t'.generations := by
  cases h with
  | arms qos => exact Nat.le_succ _
  | same | keeps | waits | settles | leaves => exact Nat.le_refl _

theorem notArmed (h : t.Becomes settled t') (hold : ticket.generation ≤ t.generations)
    (hnot : ∀ qos early, t.slot ≠ .armed ticket qos early) (qos : Qos)
    (early : List (Nat × Acknowledgement)) : t'.slot ≠ .armed ticket qos early := by
  intro heq
  cases h with
  | same => exact hnot qos early heq
  | arms q =>
    -- The ticket that is taken is of a later generation.
    cases heq
    exact absurd hold (Nat.not_succ_le_self _)
  | keeps hslot entry =>
    cases heq
    exact hnot _ _ hslot
  | waits | settles | leaves => cases heq

theorem notAwaiting (h : t.Becomes settled t')
    (harmed : ∀ qos early, t.slot ≠ .armed ticket qos early)
    (hnot : ∀ qos id, t.slot ≠ .awaiting ticket qos id) (qos : Qos) (id : Nat) :
    t'.slot ≠ .awaiting ticket qos id := by
  intro heq
  cases h with
  | same => exact hnot qos id heq
  | waits hslot =>
    cases heq
    exact harmed _ _ hslot
  | arms | keeps | settles | leaves => cases heq

/-- The last one that was acknowledged is forgotten when another one is. -/
theorem resolved_iff (h : t.Becomes settled t')
    (harmed : ∀ qos early, t.slot ≠ .armed ticket qos early)
    (hnot : ∀ qos id, t.slot ≠ .awaiting ticket qos id) :
    t'.resolved = some ticket ↔ t.resolved = some ticket ∧ settled = false := by
  cases h with
  | settles hslot =>
    refine iff_of_false (fun heq => ?_) (by simp)
    cases heq
    rcases hslot with ⟨qos, early, hslot⟩ | ⟨qos, id, hslot⟩
    · exact harmed qos early hslot
    · exact hnot qos id hslot
  | same | arms | keeps | waits | leaves => exact (and_iff_left rfl).symm

end Tracker.Becomes

/-- A look of a publisher that waits is one event: it wakes, or its time is up. -/
theorem poll_eq_happen {s : Tracking} {ticket : Ticket} {id : Nat} (h : s.waiting ticket = some id)
    (deadline now : Nat) :
    ∃ e : Event, (e = .wake ticket ∨ deadline ≤ now ∧ e = .expire ticket) ∧
      s.tracker.poll ticket deadline now =
        ((e.told s).map (·.2), (e.apply s).tracker) := by
  -- The time counts only for who learns nothing from its look.
  by_cases hdue : (s.tracker.verdict? ticket).isNone ∧ deadline ≤ now
  · refine ⟨.expire ticket, .inr ⟨hdue.2, rfl⟩, ?_⟩
    simp [Tracker.poll, Option.isNone_iff_eq_none.1 hdue.1, hdue.2, Event.told, Event.apply,
      Event.happen, h]
  · refine ⟨.wake ticket, .inl rfl, ?_⟩
    cases hverdict : s.tracker.verdict? ticket with
    | some outcome => simp [Tracker.poll, Event.told, Event.apply, Event.happen, h, hverdict]
    | none =>
      have hnow : ¬ deadline ≤ now := fun hle => hdue ⟨by simp [hverdict], hle⟩
      simp [Tracker.poll, Event.told, Event.apply, Event.happen, h, hverdict, hnow]

/-- A publisher that uses its ticket is told something at once, or waits and takes a look. -/
theorem begin_eq_happen (s : Tracking) (ticket : Ticket) (id deadline now : Nat) :
    let e := Event.record ticket id
    s.tracker.begin ticket id deadline now =
        (match e.told s with
        | some (_, outcome) => (some outcome, (e.apply s).tracker)
        | none => (e.apply s).tracker.poll ticket deadline now) ∧
      (e.told s = none → (e.apply s).waiting ticket = some id) := by
  rcases hrecord : s.tracker.record ticket id with ⟨outcome, tracker⟩
  cases outcome <;>
    simp [Tracker.begin, Event.told, Event.apply, Event.happen, hrecord]

/-! ## 3. The past of a ticket -/

/-- The history goes on with certain events since a ticket was taken. -/
def Taken (events : List Event) (ticket : Ticket) (qos : Qos) (since : List Event) : Prop :=
  ∃ before, events = before ++ .arm qos :: since ∧
    ticket = ((after before).tracker.arm qos).1

/-- The history goes on with certain events since the publisher with a ticket began to wait for a
number. -/
def Used (events : List Event) (ticket : Ticket) (id : Nat) (since : List Event) : Prop :=
  ∃ before, events = before ++ .record ticket id :: since ∧
    (Event.record ticket id).told (after before) = none

/-- Of two events in a list, one comes first, unless they are the same. -/
theorem append_cons_cases {α : Type} {before before' since since' : List α} {a a' : α}
    (h : before ++ a :: since = before' ++ a' :: since') :
    (before = before' ∧ a = a' ∧ since = since') ∨
      (∃ between, before' = before ++ a :: between) ∨
      ∃ between, before = before' ++ a' :: between := by
  obtain ⟨between, rfl, hrest⟩ | ⟨between, rfl, hrest⟩ := List.append_eq_append_iff.1 h
  · cases between with
    | nil =>
      cases hrest
      exact .inl ⟨by simp, rfl, rfl⟩
    | cons e between =>
      obtain ⟨rfl, -⟩ := List.cons.inj hrest
      exact .inr (.inl ⟨between, rfl⟩)
  · cases between with
    | nil =>
      cases hrest
      exact .inl ⟨by simp, rfl, rfl⟩
    | cons e between =>
      obtain ⟨rfl, -⟩ := List.cons.inj hrest
      exact .inr (.inr ⟨between, rfl⟩)

theorem generations_le_after (events more : List Event) :
    (after events).tracker.generations ≤ (after (events ++ more)).tracker.generations := by
  induction more using List.reverseRecOn with
  | nil => simp
  | append_singleton more e ih =>
    rw [← List.append_assoc, after_concat]
    exact Nat.le_trans ih (e.becomes _).generations_le

theorem generations_lt_after_arm (before between : List Event) (qos : Qos) :
    (after before).tracker.generations <
      (after (before ++ .arm qos :: between)).tracker.generations := by
  have hle := generations_le_after (before ++ [.arm qos]) between
  rw [after_concat, List.append_assoc, List.singleton_append] at hle
  exact hle

theorem Taken.unique {events since since' : List Event} {ticket : Ticket} {qos qos' : Qos}
    (h : Taken events ticket qos since) (h' : Taken events ticket qos' since') :
    qos = qos' ∧ since = since' := by
  obtain ⟨before, rfl, rfl⟩ := h
  obtain ⟨before', heq, hticket⟩ := h'
  have hgenerations : (after before).tracker.generations = (after before').tracker.generations := by
    simpa [Tracker.arm] using hticket
  -- If one of the two came first, the other ticket is a later one.
  obtain ⟨-, harm, hsince⟩ | ⟨between, rfl⟩ | ⟨between, rfl⟩ := append_cons_cases heq
  · exact ⟨Event.arm.inj harm, hsince⟩
  · have hlt := generations_lt_after_arm before between qos
    omega
  · have hlt := generations_lt_after_arm before' between qos'
    omega

/-- Among the events is an acknowledgement that ends a wait for a number. -/
def IsCleared (id : Nat) (qos : Qos) (events : List Event) : Prop :=
  ∃ ack : Acknowledgement, .resolve id ack ∈ events ∧ ack.clears qos = true

def IsLatest (events : List Event) (ticket : Ticket) (qos : Qos) (since : List Event) : Prop :=
  Taken events ticket qos since ∧ ∀ q, .arm q ∉ since

section Growing

variable {events since : List Event} {ticket : Ticket} {qos : Qos} {id : Nat}

theorem Taken.concat (h : Taken events ticket qos since) (e : Event) :
    Taken (events ++ [e]) ticket qos (since ++ [e]) := by
  obtain ⟨before, rfl, hticket⟩ := h
  exact ⟨before, by simp, hticket⟩

theorem Used.concat (h : Used events ticket id since) (e : Event) :
    Used (events ++ [e]) ticket id (since ++ [e]) := by
  obtain ⟨before, rfl, htold⟩ := h
  exact ⟨before, by simp, htold⟩

theorem IsCleared.concat (h : IsCleared id qos since) (e : Event) :
    IsCleared id qos (since ++ [e]) := by
  obtain ⟨ack, hmem, hclears⟩ := h
  exact ⟨ack, List.mem_append_left _ hmem, hclears⟩

theorem not_isCleared_concat (h : ¬ IsCleared id qos since) {e : Event}
    (he : ∀ ack : Acknowledgement, e = .resolve id ack → ack.clears qos = false) :
    ¬ IsCleared id qos (since ++ [e]) := by
  rintro ⟨ack, hmem, hclears⟩
  rcases List.mem_append.1 hmem with hmem | hmem
  · exact h ⟨ack, hmem, hclears⟩
  · rw [he ack (List.mem_singleton.1 hmem).symm] at hclears
    cases hclears

theorem IsLatest.concat (h : IsLatest events ticket qos since) {e : Event}
    (he : ∀ q, e ≠ .arm q) : IsLatest (events ++ [e]) ticket qos (since ++ [e]) := by
  refine ⟨h.1.concat e, fun q hmem => ?_⟩
  rcases List.mem_append.1 hmem with hmem | hmem
  · exact h.2 q hmem
  · exact he q (List.mem_singleton.1 hmem).symm

end Growing

/-! ## 4. What the state tells about the past -/

/-- Since the ticket was taken, an acknowledgement came that ends the wait for a number. -/
def IsEarned (events : List Event) (ticket : Ticket) (id : Nat) : Prop :=
  ∃ qos since, Taken events ticket qos since ∧ IsCleared id qos since

/-- What the state after a history says about its events. -/
structure IsExplained (events : List Event) : Prop where
  armed {ticket : Ticket} {qos : Qos} {early : List (Nat × Acknowledgement)}
    (h : (after events).tracker.slot = .armed ticket qos early) :
    ticket.generation ≤ (after events).tracker.generations ∧
      (after events).waiting ticket = none ∧ (after events).tracker.resolved ≠ some ticket ∧
      ∃ since, IsLatest events ticket qos since ∧
        ∀ entry ∈ early, .resolve entry.1 entry.2 ∈ since
  awaiting {ticket : Ticket} {qos : Qos} {id : Nat}
    (h : (after events).tracker.slot = .awaiting ticket qos id) :
    (after events).waiting ticket = some id ∧ (after events).tracker.resolved ≠ some ticket ∧
      ∃ since later, IsLatest events ticket qos since ∧ Used events ticket id later ∧
        ¬ IsCleared id qos later
  waiting {ticket : Ticket} {id : Nat} (h : (after events).waiting ticket = some id) :
    ticket.generation ≤ (after events).tracker.generations ∧
      ∃ later, Used events ticket id later
  resolved {ticket : Ticket} (h : (after events).tracker.resolved = some ticket) :
    ticket.generation ≤ (after events).tracker.generations ∧
      ∀ id, (after events).waiting ticket = some id → IsEarned events ticket id

namespace IsExplained

variable {events : List Event}

theorem nil : IsExplained [] where
  armed h := by cases h
  awaiting h := by cases h
  waiting h := by cases h
  resolved h := by cases h

/-! Whoever waited before an event, and whoever was the last to be acknowledged, is explained by
what happened before. -/

theorem waiting_concat (h : IsExplained events) (e : Event) {ticket : Ticket} {id : Nat}
    (hwait : (after events).waiting ticket = some id) :
    ticket.generation ≤ (after (events ++ [e])).tracker.generations ∧
      ∃ later, Used (events ++ [e]) ticket id later := by
  obtain ⟨hle, later, hused⟩ := h.waiting hwait
  rw [after_concat]
  exact ⟨Nat.le_trans hle (e.becomes _).generations_le, later ++ [e], hused.concat e⟩

theorem resolved_concat (h : IsExplained events) (e : Event) {ticket : Ticket}
    (hresolved : (after events).tracker.resolved = some ticket) :
    ticket.generation ≤ (after (events ++ [e])).tracker.generations ∧
      ∀ id, (after events).waiting ticket = some id → IsEarned (events ++ [e]) ticket id := by
  obtain ⟨hle, hearned⟩ := h.resolved hresolved
  rw [after_concat]
  refine ⟨Nat.le_trans hle (e.becomes _).generations_le, fun id hwait => ?_⟩
  obtain ⟨qos, since, htaken, hcleared⟩ := hearned id hwait
  exact ⟨qos, since ++ [e], htaken.concat e, hcleared.concat e⟩

theorem concat_arm (h : IsExplained events) (qos : Qos) :
    IsExplained (events ++ [.arm qos]) := by
  have hafter : after (events ++ [.arm qos]) =
      { after events with tracker := ((after events).tracker.arm qos).2 } := after_concat ..
  constructor
  case armed =>
    intro ticket q early harmed
    rw [hafter] at harmed ⊢
    cases harmed
    refine ⟨Nat.le_refl _, ?_, fun hres => ?_, [], ⟨⟨events, rfl, rfl⟩, by simp⟩, by simp⟩
    · -- Whoever waits has a ticket of an earlier generation.
      show (after events).waiting _ = none
      cases hwait : (after events).waiting ⟨(after events).tracker.generations + 1⟩ with
      | none => rfl
      | some id => exact absurd (h.waiting hwait).1 (Nat.not_succ_le_self _)
    · exact absurd (h.resolved hres).1 (Nat.not_succ_le_self _)
  case awaiting =>
    intro ticket q id hawaiting
    rw [hafter] at hawaiting
    cases hawaiting
  case waiting =>
    intro ticket id hwait
    rw [hafter] at hwait
    exact h.waiting_concat _ hwait
  case resolved =>
    intro ticket hres
    rw [hafter] at hres
    exact hafter ▸ h.resolved_concat (.arm qos) hres

/-- The slot is left as it is or given up, and nobody begins to wait. -/
theorem concat_of_quiet (h : IsExplained events) {e : Event} (hnew : ∀ q, e ≠ .arm q)
    (hack : ∀ (id : Nat) (ack : Acknowledgement) (ticket : Ticket) (qos : Qos),
      e = .resolve id ack → (after events).tracker.slot = .awaiting ticket qos id →
        ack.clears qos = false)
    (hslot : (after (events ++ [e])).tracker.slot = .idle ∨
      (after (events ++ [e])).tracker.slot = (after events).tracker.slot ∧
        ∀ ticket, (after events).tracker.awaits ticket = true →
          (after (events ++ [e])).waiting ticket = (after events).waiting ticket)
    (hresolved : (after (events ++ [e])).tracker.resolved = (after events).tracker.resolved)
    (hwaiting : ∀ ticket id, (after (events ++ [e])).waiting ticket = some id →
      (after events).waiting ticket = some id) :
    IsExplained (events ++ [e]) := by
  have hle : (after events).tracker.generations ≤
      (after (events ++ [e])).tracker.generations := by
    rw [after_concat]
    exact (e.becomes _).generations_le
  constructor
  case armed =>
    intro ticket qos early harmed
    obtain hidle | ⟨hsame, -⟩ := hslot
    · rw [hidle] at harmed
      cases harmed
    · obtain ⟨hgeneration, hnone, hne, since, hlatest, hearly⟩ := h.armed (hsame ▸ harmed)
      refine ⟨Nat.le_trans hgeneration hle, ?_, hresolved ▸ hne, since ++ [e], hlatest.concat hnew,
        fun entry hentry => List.mem_append_left _ (hearly entry hentry)⟩
      refine Option.eq_none_iff_forall_not_mem.2 fun id hwait => ?_
      rw [hwaiting ticket id hwait] at hnone
      cases hnone
  case awaiting =>
    intro ticket qos id hawaiting
    obtain hidle | ⟨hsame, hkeeps⟩ := hslot
    · rw [hidle] at hawaiting
      cases hawaiting
    · rw [hsame] at hawaiting
      obtain ⟨hwait, hne, since, later, hlatest, hused, hclear⟩ := h.awaiting hawaiting
      have hkept := hkeeps ticket ((Tracker.awaits_eq_true_iff ..).2 ⟨qos, id, hawaiting⟩)
      -- No acknowledgement for the number came, or it would have ended the wait.
      have hstill : ¬ IsCleared id qos (later ++ [e]) :=
        not_isCleared_concat hclear fun ack he => hack id ack ticket qos he hawaiting
      exact ⟨hkept.trans hwait, hresolved ▸ hne, since ++ [e], later ++ [e], hlatest.concat hnew,
        hused.concat e, hstill⟩
  case waiting =>
    intro ticket id hwait
    exact h.waiting_concat e (hwaiting ticket id hwait)
  case resolved =>
    intro ticket hres
    obtain ⟨hgeneration, hearned⟩ := h.resolved_concat e (hresolved ▸ hres)
    exact ⟨hgeneration, fun id hwait => hearned id (hwaiting ticket id hwait)⟩

theorem concat_disarm (h : IsExplained events) (ticket : Ticket) :
    IsExplained (events ++ [.disarm ticket]) := by
  have hafter : after (events ++ [.disarm ticket]) =
      ⟨(after events).tracker.disarm ticket, (after events).waiting⟩ := after_concat ..
  obtain ⟨-, heq⟩ | heq := (after events).tracker.disarm_cases ticket <;>
    · rw [heq] at hafter
      apply h.concat_of_quiet <;> simp [hafter]

/-- An acknowledgement settles the delivery of a ticket, which has earned it if it is waited with. -/
theorem concat_of_settled (h : IsExplained events) {e : Event} {ticket : Ticket}
    (hafter : after (events ++ [e]) =
      ⟨(after events).tracker.settleFor ticket, (after events).waiting⟩)
    (hgeneration : ticket.generation ≤ (after events).tracker.generations)
    (hearned : ∀ id, (after events).waiting ticket = some id →
      IsEarned (events ++ [e]) ticket id) :
    IsExplained (events ++ [e]) := by
  constructor
  case armed =>
    intro t q early harmed
    simp [hafter, Tracker.settleFor] at harmed
  case awaiting =>
    intro t q n hawaiting
    simp [hafter, Tracker.settleFor] at hawaiting
  case waiting =>
    intro t n hwait
    rw [hafter] at hwait
    exact h.waiting_concat e hwait
  case resolved =>
    intro t hres
    rw [hafter] at hres ⊢
    cases hres
    exact ⟨hgeneration, hearned⟩

/-- Who begins to wait has its ticket in the slot, and every other ticket that is waited with is an
earlier one. -/
theorem concat_of_begun (h : IsExplained events) {ticket : Ticket} {id : Nat} {qos : Qos}
    {early : List (Nat × Acknowledgement)}
    (hslot : (after events).tracker.slot = .armed ticket qos early)
    (hrecord : (after events).tracker.record ticket id =
      (none, { (after events).tracker with slot := .awaiting ticket qos id })) :
    IsExplained (events ++ [.record ticket id]) := by
  have hafter : after (events ++ [.record ticket id]) =
      ⟨{ (after events).tracker with slot := .awaiting ticket qos id },
        Function.update (after events).waiting ticket (some id)⟩ := by
    simp [Event.apply, Event.happen, hrecord]
  have hused : Used (events ++ [.record ticket id]) ticket id [] :=
    ⟨events, rfl, by simp [Event.told, Event.happen, hrecord]⟩
  obtain ⟨hgeneration, -, hne, since, hlatest, -⟩ := h.armed hslot
  constructor
  case armed =>
    intro t q e harmed
    simp [hafter] at harmed
  case awaiting =>
    -- Nothing has happened since the wait began.
    intro t q n hawaiting
    rw [hafter] at hawaiting ⊢
    cases hawaiting
    exact ⟨Function.update_self .., hne, _, [], hlatest.concat (by simp), hused,
      by simp [IsCleared]⟩
  case waiting =>
    intro t n hwait
    simp only [hafter] at hwait
    by_cases ht : t = ticket
    · subst ht
      rw [Function.update_self] at hwait
      cases hwait
      exact ⟨by rwa [hafter], [], hused⟩
    · rw [Function.update_of_ne ht] at hwait
      exact h.waiting_concat _ hwait
  case resolved =>
    intro t hres
    rw [hafter] at hres
    obtain ⟨hle, hearned⟩ := h.resolved_concat (.record ticket id) hres
    refine ⟨hle, fun n hwait => hearned n ?_⟩
    -- The ticket in the slot is not the one that was acknowledged last.
    have ht : t ≠ ticket := fun heq => hne (heq ▸ hres)
    simpa only [hafter, Function.update_of_ne ht] using hwait

theorem concat_record (h : IsExplained events) (ticket : Ticket) (id : Nat) :
    IsExplained (events ++ [.record ticket id]) := by
  obtain ⟨qos, early, hslot, -, hrecord⟩ | ⟨qos, early, hslot, hrecord⟩ | hrecord :=
    (after events).tracker.record_cases ticket id
  · -- The acknowledgement came before the number was known, so that no wait begins.
    obtain ⟨hgeneration, hnone, -⟩ := h.armed hslot
    refine h.concat_of_settled (by simp [Event.apply, Event.happen, hrecord]) hgeneration
      fun n hwait => ?_
    rw [hnone] at hwait
    cases hwait
  · exact h.concat_of_begun hslot hrecord
  · -- The ticket is not in the slot, and its publisher is told so.
    have hafter : after (events ++ [.record ticket id]) = after events := by
      simp [Event.apply, Event.happen, hrecord]
    apply h.concat_of_quiet <;> simp [hafter]

theorem concat_of_leaves (h : IsExplained events) {e : Event} {ticket : Ticket} {tracker : Tracker}
    (he : e = .wake ticket ∨ e = .expire ticket)
    (hafter : after (events ++ [e]) =
      ⟨tracker, Function.update (after events).waiting ticket none⟩)
    (hslot : tracker = { (after events).tracker with slot := .idle } ∨
      tracker = (after events).tracker ∧ (after events).tracker.awaits ticket = false) :
    IsExplained (events ++ [e]) := by
  apply h.concat_of_quiet
  case hnew => rcases he with rfl | rfl <;> simp
  case hack => rcases he with rfl | rfl <;> simp
  case hresolved => rcases hslot with rfl | ⟨rfl, -⟩ <;> simp [hafter]
  case hslot =>
    rw [hafter]
    obtain rfl | ⟨rfl, hnot⟩ := hslot
    · exact .inl rfl
    · refine .inr ⟨rfl, fun t hawaits => Function.update_of_ne ?_ ..⟩
      rintro rfl
      rw [hnot] at hawaits
      cases hawaits
  case hwaiting =>
    intro t id hwait
    rw [hafter] at hwait
    by_cases ht : t = ticket
    · rw [ht] at hwait
      simp at hwait
    · simpa [Function.update_of_ne ht] using hwait

theorem concat_wake (h : IsExplained events) (ticket : Ticket) :
    IsExplained (events ++ [.wake ticket]) := by
  cases hwait : (after events).waiting ticket with
  | none =>
    have hafter : after (events ++ [.wake ticket]) = after events := by
      simp [Event.apply, Event.happen, hwait]
    apply h.concat_of_quiet <;> simp [hafter]
  | some id =>
    by_cases hawaits : (after events).tracker.awaits ticket = true
    · have hafter : after (events ++ [.wake ticket]) = after events := by
        simp [Event.apply, Event.happen, hwait, Tracker.verdict?, hawaits]
      apply h.concat_of_quiet <;> simp [hafter]
    · have hafter : after (events ++ [.wake ticket]) =
          ⟨(after events).tracker, Function.update (after events).waiting ticket none⟩ := by
        simp [Event.apply, Event.happen, hwait, Tracker.verdict?, hawaits]
      exact h.concat_of_leaves (.inl rfl) hafter (.inr ⟨rfl, by simpa using hawaits⟩)

theorem concat_expire (h : IsExplained events) (ticket : Ticket) :
    IsExplained (events ++ [.expire ticket]) := by
  cases hwait : (after events).waiting ticket with
  | none =>
    have hafter : after (events ++ [.expire ticket]) = after events := by
      simp [Event.apply, Event.happen, hwait]
    apply h.concat_of_quiet <;> simp [hafter]
  | some id =>
    have hafter : after (events ++ [.expire ticket]) =
        ⟨((after events).tracker.expire ticket).2,
          Function.update (after events).waiting ticket none⟩ := by
      simp [Event.apply, Event.happen, hwait]
    refine h.concat_of_leaves (.inr rfl) hafter ?_
    obtain ⟨qos, n, -, hexpire⟩ | ⟨hresolved, hexpire⟩ :=
      (after events).tracker.expire_cases ticket
    · exact .inl (by rw [hexpire])
    · refine .inr ⟨by rw [hexpire], ?_⟩
      -- Who still waits is not the one that was acknowledged last.
      by_contra hawaits
      obtain ⟨qos, n, hslot⟩ :=
        (Tracker.awaits_eq_true_iff ..).1 (Bool.not_eq_false _ ▸ hawaits)
      exact (h.awaiting hslot).2.1 (hresolved (by simpa using hawaits))

/-- An acknowledgement is kept, like all that have come since the ticket was taken. -/
theorem concat_of_kept (h : IsExplained events) {id : Nat} {ack : Acknowledgement}
    {ticket : Ticket} {qos : Qos} {early : List (Nat × Acknowledgement)}
    (hslot : (after events).tracker.slot = .armed ticket qos early)
    (hafter : after (events ++ [.resolve id ack]) =
      ⟨{ (after events).tracker with
        slot := .armed ticket qos (keepLatest earlyLimit (id, ack) early) },
        (after events).waiting⟩) :
    IsExplained (events ++ [.resolve id ack]) := by
  obtain ⟨hgeneration, hnone, hne, since, hlatest, hearly⟩ := h.armed hslot
  constructor
  case armed =>
    intro t q e harmed
    rw [hafter] at harmed ⊢
    cases harmed
    refine ⟨hgeneration, hnone, hne, _, hlatest.concat (by simp), fun entry hentry => ?_⟩
    rcases mem_keepLatest hentry with hold | rfl
    · exact List.mem_append_left _ (hearly entry hold)
    · simp
  case awaiting =>
    intro t q n hawaiting
    simp [hafter] at hawaiting
  case waiting =>
    intro t n hwait
    rw [hafter] at hwait
    exact h.waiting_concat _ hwait
  case resolved =>
    intro t hres
    rw [hafter] at hres
    simpa only [hafter] using h.resolved_concat (.resolve id ack) hres

theorem concat_resolve (h : IsExplained events) (id : Nat) (ack : Acknowledgement) :
    IsExplained (events ++ [.resolve id ack]) := by
  obtain ⟨ticket, qos, hslot, hclears, hresolve⟩ | ⟨ticket, qos, early, hslot, hresolve⟩ |
    ⟨hunarmed, hkeeps, hresolve⟩ := (after events).tracker.resolve_cases id ack
  · -- The acknowledgement is the one that the publisher in the slot has earned.
    obtain ⟨hwaits, -, since, -, hlatest, -⟩ := h.awaiting hslot
    refine h.concat_of_settled (by simp [Event.apply, Event.happen, hresolve])
      (h.waiting hwaits).1 fun n hwait => ?_
    rw [hwaits] at hwait
    cases hwait
    exact ⟨qos, _, hlatest.1.concat _, ack, by simp, hclears⟩
  · exact h.concat_of_kept hslot (by simp [Event.apply, Event.happen, hresolve])
  · have hafter : after (events ++ [.resolve id ack]) = after events := by
      simp [Event.apply, Event.happen, hresolve]
    apply h.concat_of_quiet
    case hack =>
      intro n a ticket qos heq hslot
      cases heq
      exact hkeeps ticket qos hslot
    all_goals simp [hafter]

end IsExplained

/-- **The state after any history says what happened.** -/
theorem isExplained (events : List Event) : IsExplained events := by
  induction events using List.reverseRecOn with
  | nil => exact .nil
  | append_singleton events e ih =>
    cases e with
    | arm qos => exact ih.concat_arm qos
    | disarm ticket => exact ih.concat_disarm ticket
    | record ticket id => exact ih.concat_record ticket id
    | wake ticket => exact ih.concat_wake ticket
    | expire ticket => exact ih.concat_expire ticket
    | resolve id ack => exact ih.concat_resolve id ack

theorem armed_of_told_nothing {s : Tracking} {ticket : Ticket} {id : Nat}
    (h : (Event.record ticket id).told s = none) :
    ∃ qos early, s.tracker.slot = .armed ticket qos early ∧
      ((Event.record ticket id).apply s).tracker.slot = .awaiting ticket qos id := by
  obtain ⟨qos, early, -, -, hrecord⟩ | ⟨qos, early, hslot, hrecord⟩ | hrecord :=
    s.tracker.record_cases ticket id
  · simp [Event.told, Event.happen, hrecord] at h
  · exact ⟨qos, early, hslot, by simp [Event.apply, Event.happen, hrecord]⟩
  · simp [Event.told, Event.happen, hrecord] at h

/-- A ticket that was waited with does not come back into the slot. -/
theorem Used.notArmed {events since : List Event} {ticket : Ticket} {id : Nat}
    (h : Used events ticket id since) (qos : Qos) (early : List (Nat × Acknowledgement)) :
    (after events).tracker.slot ≠ .armed ticket qos early := by
  obtain ⟨before, rfl, htold⟩ := h
  obtain ⟨q, list, hslot, hawaiting⟩ := armed_of_told_nothing htold
  have hold : ticket.generation ≤ (after before).tracker.generations :=
    ((isExplained before).armed hslot).1
  induction since using List.reverseRecOn generalizing qos early with
  | nil =>
    simp [hawaiting]
  | append_singleton since e ih =>
    rw [← List.cons_append, ← List.append_assoc, after_concat]
    exact (e.becomes _).notArmed (Nat.le_trans hold (generations_le_after before _)) ih qos early

theorem Used.unique {events since since' : List Event} {ticket : Ticket} {id id' : Nat}
    (h : Used events ticket id since) (h' : Used events ticket id' since') :
    id = id' ∧ since = since' := by
  obtain ⟨before, rfl, htold⟩ := h
  obtain ⟨before', heq, htold'⟩ := h'
  obtain ⟨q, list, hslot, -⟩ := armed_of_told_nothing htold
  obtain ⟨q', list', hslot', -⟩ := armed_of_told_nothing htold'
  -- If one of the two came first, the ticket was not in the slot any more for the other.
  obtain ⟨-, hrecord, hsince⟩ | ⟨between, rfl⟩ | ⟨between, rfl⟩ := append_cons_cases heq
  · exact ⟨(Event.record.inj hrecord).2, hsince⟩
  · exact absurd hslot' (Used.notArmed ⟨before, rfl, htold⟩ q' list')
  · exact absurd hslot (Used.notArmed ⟨before', rfl, htold'⟩ q list)

/-! ## 5. What publishers are told -/

/-- A publisher is told something when it uses its ticket, or later while it waits. -/
theorem Event.told_cases {e : Event} {s : Tracking} {ticket : Ticket} {outcome : Outcome}
    (h : e.told s = some (ticket, outcome)) :
    (∃ id, e = .record ticket id ∧ (s.tracker.record ticket id).1 = some outcome) ∨
    (∃ id, e = .wake ticket ∧ s.waiting ticket = some id ∧
      s.tracker.verdict? ticket = some outcome) ∨
    (∃ id, e = .expire ticket ∧ s.waiting ticket = some id ∧
      (s.tracker.expire ticket).1 = outcome) := by
  cases e with
  | record t id =>
    rcases hrecord : s.tracker.record t id with ⟨answer, tracker⟩
    cases answer <;> simp [told, happen, hrecord] at h
    obtain ⟨rfl, rfl⟩ := h
    exact .inl ⟨id, rfl, by rw [hrecord]⟩
  | wake t =>
    rw [told, happen] at h
    split at h
    · next id answer hwait hverdict =>
      cases h
      exact .inr (.inl ⟨id, rfl, hwait, hverdict⟩)
    · cases h
  | expire t =>
    rw [told, happen] at h
    split at h
    · next id answer tracker hwait hexpire =>
      cases h
      exact .inr (.inr ⟨id, rfl, hwait, by rw [hexpire]⟩)
    · cases h
  | arm => cases h
  | disarm => cases h
  | resolve => cases h

theorem Tracker.outcome_eq_confirmed_iff (t : Tracker) (ticket : Ticket) :
    t.outcome ticket = .confirmed ↔ t.resolved = some ticket := by
  rw [outcome]
  split <;> simp_all

theorem Tracker.outcome_ne_timedOut (t : Tracker) (ticket : Ticket) :
    t.outcome ticket ≠ .timedOut := by
  rw [outcome]
  split <;> simp

/-- Who learns while it waits that its delivery was confirmed was the last one that was
acknowledged. -/
theorem resolved_of_told_confirmed {e : Event} {s : Tracking} {ticket : Ticket}
    (h : e.told s = some (ticket, .confirmed)) (he : ∀ id, e ≠ .record ticket id) :
    s.tracker.resolved = some ticket ∧ ∃ id, s.waiting ticket = some id := by
  obtain ⟨id, rfl, -⟩ | ⟨id, -, hwait, hverdict⟩ | ⟨id, -, hwait, hexpire⟩ := Event.told_cases h
  · exact absurd rfl (he id)
  · rw [Tracker.verdict?] at hverdict
    split at hverdict
    · cases hverdict
    · exact ⟨(Tracker.outcome_eq_confirmed_iff ..).1 (Option.some.inj hverdict), id, hwait⟩
  · obtain ⟨qos, n, -, heq⟩ | ⟨-, heq⟩ := s.tracker.expire_cases ticket <;>
      rw [heq] at hexpire
    · cases hexpire
    · exact ⟨(Tracker.outcome_eq_confirmed_iff ..).1 hexpire, id, hwait⟩

/-- Only who waits for a number, and was not acknowledged, is told that its time is up. -/
theorem awaiting_of_told_timedOut {e : Event} {s : Tracking} {ticket : Ticket}
    (h : e.told s = some (ticket, .timedOut)) :
    e = .expire ticket ∧ ∃ qos id, s.tracker.slot = .awaiting ticket qos id := by
  obtain ⟨id, rfl, hrecord⟩ | ⟨id, -, -, hverdict⟩ | ⟨id, rfl, -, hexpire⟩ := Event.told_cases h
  · obtain ⟨qos, early, -, -, heq⟩ | ⟨qos, early, -, heq⟩ | heq :=
      s.tracker.record_cases ticket id <;> rw [heq] at hrecord <;> cases hrecord
  · rw [Tracker.verdict?] at hverdict
    split at hverdict
    · cases hverdict
    · exact absurd (Option.some.inj hverdict) (s.tracker.outcome_ne_timedOut ticket)
  · obtain ⟨qos, n, hslot, -⟩ | ⟨-, heq⟩ := s.tracker.expire_cases ticket
    · exact ⟨rfl, qos, n, hslot⟩
    · rw [heq] at hexpire
      exact absurd hexpire (s.tracker.outcome_ne_timedOut ticket)

/-- Who learns as soon as it gives its number that its delivery was confirmed has the ticket that
was taken last, and the acknowledgement has come already. -/
theorem armed_of_told_confirmed {s : Tracking} {ticket : Ticket} {id : Nat}
    (h : (Event.record ticket id).told s = some (ticket, .confirmed)) :
    ∃ qos early, s.tracker.slot = .armed ticket qos early ∧
      ∃ ack : Acknowledgement, (id, ack) ∈ early ∧ ack.clears qos = true := by
  obtain ⟨qos, early, hslot, hcame, -⟩ | ⟨qos, early, -, hrecord⟩ | hrecord :=
    s.tracker.record_cases ticket id
  · exact ⟨qos, early, hslot, hcame⟩
  all_goals simp [Event.told, Event.happen, hrecord] at h

/-- **What publishers are told is so.** After any history: who is told that its delivery was
confirmed had an acknowledgement for its number since it took its ticket; who is told that its time
is up had none since it gave its number; and the number that is awaited is that of the publisher
that took its ticket last, which still waits and had no acknowledgement either. -/
theorem outcomes_justified (events : List Event) :
    (∀ (e : Event) (ticket : Ticket), e.told (after events) = some (ticket, .confirmed) →
      ∃ id qos since, Taken events ticket qos since ∧ IsCleared id qos since ∧
        (e = .record ticket id ∨
          (after events).waiting ticket = some id ∧ ∃ later, Used events ticket id later)) ∧
    (∀ (e : Event) (ticket : Ticket), e.told (after events) = some (ticket, .timedOut) →
      ∃ id qos since later, Taken events ticket qos since ∧ Used events ticket id later ∧
        (after events).waiting ticket = some id ∧ ¬ IsCleared id qos later) ∧
    (∀ id, (after events).tracker.tracked = some id →
      ∃ ticket qos since later, Taken events ticket qos since ∧ (∀ q, .arm q ∉ since) ∧
        Used events ticket id later ∧ (after events).waiting ticket = some id ∧
        ¬ IsCleared id qos later) := by
  have hexplained := isExplained events
  refine ⟨fun e ticket htold => ?_, fun e ticket htold => ?_, fun id htracked => ?_⟩
  · -- It is told as soon as it gives its number, or later while it waits.
    by_cases hrecord : ∃ id, e = .record ticket id
    · obtain ⟨id, rfl⟩ := hrecord
      obtain ⟨qos, early, hslot, ack, hmem, hclears⟩ := armed_of_told_confirmed htold
      obtain ⟨-, -, -, since, hlatest, hearly⟩ := hexplained.armed hslot
      exact ⟨id, qos, since, hlatest.1, ⟨ack, hearly _ hmem, hclears⟩, .inl rfl⟩
    · obtain ⟨hresolved, id, hwait⟩ :=
        resolved_of_told_confirmed htold fun id heq => hrecord ⟨id, heq⟩
      obtain ⟨qos, since, htaken, hcleared⟩ := (hexplained.resolved hresolved).2 id hwait
      exact ⟨id, qos, since, htaken, hcleared, .inr ⟨hwait, (hexplained.waiting hwait).2⟩⟩
  · obtain ⟨-, qos, id, hslot⟩ := awaiting_of_told_timedOut htold
    obtain ⟨hwait, -, since, later, hlatest, hused, hclear⟩ := hexplained.awaiting hslot
    exact ⟨id, qos, since, later, hlatest.1, hused, hwait, hclear⟩
  · obtain ⟨ticket, qos, hslot⟩ := (Tracker.tracked_eq_some_iff ..).1 htracked
    obtain ⟨hwait, -, since, later, hlatest, hused, hclear⟩ := hexplained.awaiting hslot
    exact ⟨ticket, qos, since, later, hlatest.1, hlatest.2, hused, hwait, hclear⟩

example :
    let events := [.arm .atLeastOnce, .record ⟨1⟩ 7]
    (after events).tracker.tracked = some 7 ∧
      (Event.expire ⟨1⟩).told (after events) = some (⟨1⟩, .timedOut) ∧
      (Event.wake ⟨1⟩).told (after (events ++ [.resolve 7 .confirmed])) =
        some (⟨1⟩, .confirmed) := by
  decide

end Uplink.Delivery
