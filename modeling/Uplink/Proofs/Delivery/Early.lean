import Mathlib.Data.List.DropRight
import Uplink.Proofs.Delivery.Tracking

/-!
# Acknowledgements that come early

A message may be acknowledged before its publisher knows the number that it got. What comes after
the ticket was taken is therefore kept, up to a limit: the latest acknowledgements, for whatever
numbers they are. When the publisher gives its number, those that were kept decide whether it has to
wait.
-/

namespace Uplink.Delivery

/-! ## 1. The latest entries -/

/-- A list that keeps its latest entries goes on to do so. -/
theorem keepLatest_rtake {α : Type} {limit : Nat} (hpos : 0 < limit) (a : α) (list : List α) :
    keepLatest limit a (list.rtake limit) = (list ++ [a]).rtake limit := by
  have hlength : (list.drop (list.length - limit)).length = min limit list.length := by
    rw [List.length_drop]
    omega
  unfold keepLatest List.rtake
  rw [hlength, List.length_append, List.length_singleton]
  by_cases hfull : limit ≤ list.length
  · -- The oldest of the entries goes.
    have hnext : list.length - limit + 1 = list.length + 1 - limit := by omega
    rw [if_pos (by omega), List.tail_drop, hnext, List.drop_append_of_le_length (by omega)]
  · have hall : list.length - limit = 0 := by omega
    have hall' : list.length + 1 - limit = 0 := by omega
    rw [if_neg (by omega), hall, hall', List.drop_zero, List.drop_zero]

theorem length_rtake_le {α : Type} (limit : Nat) (list : List α) :
    (list.rtake limit).length ≤ limit := by
  unfold List.rtake
  rw [List.length_drop]
  omega

/-! ## 2. Between taking a ticket and using it -/

def Event.acknowledgement? : Event → Option (Nat × Acknowledgement)
  | .resolve id ack => some (id, ack)
  | _ => none

def acknowledgements (events : List Event) : List (Nat × Acknowledgement) :=
  events.filterMap Event.acknowledgement?

/-- Nobody takes a ticket in an event, and one ticket is neither used nor given back. -/
def Event.Spares (ticket : Ticket) : Event → Prop
  | .arm _ => False
  | .disarm other | .record other _ => other ≠ ticket
  | .wake _ | .expire _ | .resolve _ _ => True

instance (ticket : Ticket) : (e : Event) → Decidable (e.Spares ticket)
  | .arm _ => inferInstanceAs (Decidable False)
  | .disarm other | .record other _ => inferInstanceAs (Decidable (other ≠ ticket))
  | .wake _ | .expire _ | .resolve _ _ => inferInstanceAs (Decidable True)

def Tracking.play (s : Tracking) (events : List Event) : Tracking :=
  events.foldl (fun s e => e.apply s) s

theorem Tracking.play_concat (s : Tracking) (events : List Event) (e : Event) :
    s.play (events ++ [e]) = e.apply (s.play events) := by
  simp [play]

variable {s : Tracking} {ticket : Ticket} {qos : Qos} {early : List (Nat × Acknowledgement)}

/-- An acknowledgement is added to those that were kept. Whatever else happens leaves them alone. -/
theorem slot_apply_of_armed (hslot : s.tracker.slot = .armed ticket qos early) {e : Event}
    (h : e.Spares ticket) :
    (e.apply s).tracker.slot =
      .armed ticket qos (e.acknowledgement?.elim early fun a => keepLatest earlyLimit a early) := by
  have hawaits (other : Ticket) : s.tracker.awaits other = false := by
    simp [Tracker.awaits, hslot]
  cases e with
  | arm q => exact h.elim
  | disarm other =>
    have hne : ticket ≠ other := Ne.symm h
    show (s.tracker.disarm other).slot = _
    simp only [Tracker.disarm, hslot, if_neg hne]
    rfl
  | record other id =>
    have hne : ticket ≠ other := Ne.symm h
    have hrecord : s.tracker.record other id = (some .superseded, s.tracker) := by
      simp only [Tracker.record, hslot, if_neg hne]
    rw [Event.apply, Event.happen, hrecord]
    exact hslot
  | wake other =>
    -- Who looks changes nothing but its own wait.
    rw [Event.apply, Event.happen]
    split <;> exact hslot
  | expire other =>
    have hexpire : (s.tracker.expire other).2 = s.tracker := by
      simp [Tracker.expire, hawaits]
    rw [Event.apply, Event.happen]
    split
    · next heq =>
      rw [heq] at hexpire
      exact (congrArg Tracker.slot hexpire).trans hslot
    · exact hslot
  | resolve id ack =>
    show (s.tracker.resolve id ack).2.slot = _
    simp only [Tracker.resolve, hslot]
    rfl

/-- The latest acknowledgements are there when the publisher gives its number. -/
theorem slot_play_of_armed (hslot : s.tracker.slot = .armed ticket qos []) {between : List Event}
    (h : ∀ e ∈ between, e.Spares ticket) :
    (s.play between).tracker.slot =
      .armed ticket qos ((acknowledgements between).rtake earlyLimit) := by
  induction between using List.reverseRecOn with
  | nil => exact hslot
  | append_singleton between e ih =>
    have hbefore := ih fun e' he' => h e' (List.mem_append_left _ he')
    rw [Tracking.play_concat, slot_apply_of_armed hbefore (h e (by simp)), acknowledgements,
      acknowledgements, List.filterMap_append]
    cases hack : e.acknowledgement? with
    | none => simp [hack]
    | some a =>
      have hlimit : 0 < earlyLimit := by decide
      have hkept := keepLatest_rtake hlimit a
        (between.filterMap Event.acknowledgement?)
      simp [hack, hkept]

theorem resolve_of_armed {t : Tracker} (hslot : t.slot = .armed ticket qos early) (id : Nat)
    (ack : Acknowledgement) : (t.resolve id ack).1 = false := by
  simp only [Tracker.resolve, hslot]

/-! ## 3. Using the ticket -/

/-- One of several acknowledgements is for a number and goes far enough for a guarantee. -/
def Clears (id : Nat) (qos : Qos) (acks : List (Nat × Acknowledgement)) : Prop :=
  ∃ ack : Acknowledgement, (id, ack) ∈ acks ∧ ack.clears qos = true

theorem any_clears_iff (id : Nat) (qos : Qos) (acks : List (Nat × Acknowledgement)) :
    (acks.any fun entry => entry.1 == id && entry.2.clears qos) = true ↔ Clears id qos acks := by
  rw [List.any_eq_true]
  constructor
  · rintro ⟨⟨other, ack⟩, hmem, hack⟩
    rw [Bool.and_eq_true, beq_iff_eq] at hack
    obtain ⟨rfl, hclears⟩ := hack
    exact ⟨ack, hmem, hclears⟩
  · rintro ⟨ack, hmem, hclears⟩
    exact ⟨(id, ack), hmem, by simp [hclears]⟩

variable {t : Tracker}

theorem record_of_clears (hslot : t.slot = .armed ticket qos early) {id : Nat}
    (h : Clears id qos early) : t.record ticket id = (some .confirmed, t.settleFor ticket) := by
  rw [← any_clears_iff] at h
  simp [Tracker.record, hslot, h]

theorem record_of_not_clears (hslot : t.slot = .armed ticket qos early) {id : Nat}
    (h : ¬Clears id qos early) :
    t.record ticket id = (none, { t with slot := .awaiting ticket qos id }) := by
  rw [← any_clears_iff] at h
  simp [Tracker.record, hslot, h]

/-- Who has begun to wait in time goes on with it. -/
theorem poll_of_awaiting {id : Nat} (hslot : t.slot = .awaiting ticket qos id) {deadline now : Nat}
    (h : now < deadline) : t.poll ticket deadline now = (none, t) := by
  have hawaits : t.awaits ticket = true := (t.awaits_eq_true_iff ticket).2 ⟨qos, id, hslot⟩
  have hnow : ¬deadline ≤ now := Nat.not_le.2 h
  simp [Tracker.poll, Tracker.verdict?, hawaits, hnow]

/-- **Acknowledgements that come before the publisher gives its number are not lost, unless too many
come.** Whatever happens after the ticket was taken, as long as no other is taken or this one given
back: the publisher is confirmed at once if one of the last 64 acknowledgements is for its number
and goes far enough, and begins to wait for one if none does. Until then no acknowledgement ends a
wait, and no more than 64 are kept. -/
theorem early_acknowledgements_confirm (s : Tracking) (qos : Qos) {between : List Event}
    (hbetween : ∀ e ∈ between, e.Spares (s.tracker.arm qos).1) (id : Nat) :
    let ticket := (s.tracker.arm qos).1
    let armed := (Event.arm qos).apply s
    let tracker := (armed.play between).tracker
    let latest := (acknowledgements between).rtake 64
    ((tracker.record ticket id).1 = some .confirmed ↔ Clears id qos latest) ∧
    (Clears id qos latest →
      tracker.record ticket id = (some .confirmed, tracker.settleFor ticket) ∧
      (tracker.settleFor ticket).slot = .idle ∧
      ∀ deadline now,
        tracker.begin ticket id deadline now = (some .confirmed, tracker.settleFor ticket)) ∧
    (¬Clears id qos latest →
      tracker.record ticket id = (none, { tracker with slot := .awaiting ticket qos id }) ∧
      ∀ deadline now, now < deadline → tracker.begin ticket id deadline now =
        (none, { tracker with slot := .awaiting ticket qos id })) ∧
    (∀ earlier id' ack later, between = earlier ++ .resolve id' ack :: later →
      ((armed.play earlier).tracker.resolve id' ack).1 = false) ∧
    ∀ earlier, earlier <+: between → ∃ early,
      (armed.play earlier).tracker.slot = .armed ticket qos early ∧ early.length ≤ 64 := by
  intro ticket armed tracker latest
  -- What holds of all that happened holds of every part from the start on.
  have hslot (earlier : List Event) (h : earlier <+: between) :
      (armed.play earlier).tracker.slot =
        .armed ticket qos ((acknowledgements earlier).rtake 64) :=
    slot_play_of_armed rfl fun e he => hbetween e (h.subset he)
  have hlatest : tracker.slot = .armed ticket qos latest := hslot between List.prefix_rfl
  refine ⟨⟨fun hconfirmed => ?_, fun hclears => ?_⟩, fun hclears => ?_, fun hnot => ?_,
    fun earlier id' ack later heq => ?_,
    fun earlier h => ⟨_, hslot earlier h, length_rtake_le 64 _⟩⟩
  · by_contra hnot
    rw [record_of_not_clears hlatest hnot] at hconfirmed
    cases hconfirmed
  · rw [record_of_clears hlatest hclears]
  · have hrecord := record_of_clears hlatest hclears
    refine ⟨hrecord, rfl, fun deadline now => ?_⟩
    rw [Tracker.begin, hrecord]
  · have hrecord := record_of_not_clears hlatest hnot
    refine ⟨hrecord, fun deadline now hnow => ?_⟩
    rw [Tracker.begin, hrecord]
    exact poll_of_awaiting rfl hnow
  · exact resolve_of_armed (hslot earlier ⟨_, heq.symm⟩) id' ack

/-- The first of 65 acknowledgements is not kept, the last one is. -/
theorem early_acknowledgements_confirm_last_of_many :
    let s := after [.arm .atLeastOnce, .record ⟨1⟩ 3]
    let between : List Event := .resolve 7 .confirmed :: .wake ⟨1⟩ ::
      (List.replicate 63 (.resolve 9 .published) ++ [.record ⟨1⟩ 7, .resolve 8 .confirmed])
    let tracker := (((Event.arm .exactlyOnce).apply s).play between).tracker
    (∀ e ∈ between, e.Spares (s.tracker.arm .exactlyOnce).1) ∧
      tracker.begin ⟨2⟩ 8 0 0 = (some .confirmed, tracker.settleFor ⟨2⟩) ∧
      tracker.record ⟨2⟩ 7 = (none, { tracker with slot := .awaiting ⟨2⟩ .exactlyOnce 7 }) := by
  intro s between tracker
  have hspares : ∀ e ∈ between, e.Spares (s.tracker.arm .exactlyOnce).1 := by decide +kernel
  have hmem : (8, Acknowledgement.confirmed) ∈ (acknowledgements between).rtake 64 := by
    decide +kernel
  have hevicted : ∀ entry ∈ (acknowledgements between).rtake 64, entry.1 ≠ 7 := by decide +kernel
  obtain ⟨-, hconfirms, -⟩ := early_acknowledgements_confirm s .exactlyOnce hspares 8
  obtain ⟨-, -, hwaits, -⟩ := early_acknowledgements_confirm s .exactlyOnce hspares 7
  obtain ⟨-, -, hbegin⟩ := hconfirms ⟨.confirmed, hmem, rfl⟩
  have hnot : ¬Clears 7 .exactlyOnce ((acknowledgements between).rtake 64) := by
    rintro ⟨ack, hmem, -⟩
    exact hevicted _ hmem rfl
  exact ⟨hspares, hbegin 0 0, (hwaits hnot).1⟩

end Uplink.Delivery
