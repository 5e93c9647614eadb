import Uplink.Proofs.Delivery.Tracking

/-!
# Who learns of an acknowledgement

An acknowledgement ends the wait of a publisher before the publisher knows: it learns of it only
when it looks next. Until then the tracker keeps no more than who was acknowledged last. If another
delivery is acknowledged in the meantime, the first publisher finds no trace of its own, and takes
the other for the one that took its place.
-/

namespace Uplink.Delivery

/-! ## 1. Who is left -/

/-- Who waits does so until it looks and learns something. -/
theorem exists_waiting_apply {ticket : Ticket} {s : Tracking}
    (h : ∃ id, s.waiting ticket = some id) {e : Event} (hwake : e ≠ .wake ticket)
    (hexpire : e ≠ .expire ticket) : ∃ id, (e.apply s).waiting ticket = some id := by
  cases e with
  | arm | disarm | resolve => exact h
  | record t id =>
    rw [Event.apply, Event.happen]
    split
    · exact h
    · by_cases ht : ticket = t
      · subst ht
        exact ⟨id, Function.update_self ..⟩
      · simpa [Function.update_of_ne ht] using h
  | wake t =>
    have hne : ticket ≠ t := fun ht => hwake (ht ▸ rfl)
    rw [Event.apply, Event.happen]
    split
    · simpa [Function.update_of_ne hne] using h
    · exact h
  | expire t =>
    have hne : ticket ≠ t := fun ht => hexpire (ht ▸ rfl)
    rw [Event.apply, Event.happen]
    split
    · simpa [Function.update_of_ne hne] using h
    · exact h

/-- A publisher waits for a number that nobody keeps any more. -/
structure IsLeft (ticket : Ticket) (s : Tracking) : Prop where
  waits : ∃ id, s.waiting ticket = some id
  old : ticket.generation ≤ s.tracker.generations
  notArmed : ∀ qos early, s.tracker.slot ≠ .armed ticket qos early
  notAwaiting : ∀ qos id, s.tracker.slot ≠ .awaiting ticket qos id

namespace IsLeft

variable {ticket : Ticket} {s : Tracking}

theorem awaits (h : IsLeft ticket s) : s.tracker.awaits ticket = false := by
  by_contra hawaits
  obtain ⟨qos, id, hslot⟩ := (Tracker.awaits_eq_true_iff ..).1 (by simpa using hawaits)
  exact h.notAwaiting qos id hslot

theorem told (h : IsLeft ticket s) {e : Event} (he : e = .wake ticket ∨ e = .expire ticket) :
    e.told s = some (ticket, s.tracker.outcome ticket) := by
  obtain ⟨id, hwait⟩ := h.waits
  obtain rfl | rfl := he
  · simp [Event.told, Event.happen, hwait, Tracker.verdict?, h.awaits]
  · simp [Event.told, Event.happen, hwait, Tracker.expire, h.awaits]

/-- As long as the publisher does not look, it is left; and what settles another delivery takes its
acknowledgement away. -/
theorem apply (h : IsLeft ticket s) {e : Event} (hwake : e ≠ .wake ticket)
    (hexpire : e ≠ .expire ticket) :
    IsLeft ticket (e.apply s) ∧
      ((e.apply s).tracker.resolved = some ticket ↔
        s.tracker.resolved = some ticket ∧ e.settles s = false) := by
  have hbecomes := e.becomes s
  exact ⟨⟨exists_waiting_apply h.waits hwake hexpire, Nat.le_trans h.old hbecomes.generations_le,
    hbecomes.notArmed h.old h.notArmed, hbecomes.notAwaiting h.notArmed h.notAwaiting⟩,
    hbecomes.resolved_iff h.notArmed h.notAwaiting⟩

end IsLeft

/-! ## 2. Between the acknowledgement and the look -/

variable {before : List Event} {ticket : Ticket} {id : Nat} {ack : Acknowledgement}

/-- The acknowledgement of a publisher that waits. -/
theorem isLeft_resolve (hawaits : (after before).tracker.awaits ticket = true)
    (hresolves : ((after before).tracker.resolve id ack).1 = true) :
    IsLeft ticket (after (before ++ [.resolve id ack])) ∧
      (after (before ++ [.resolve id ack])).tracker.resolved = some ticket := by
  have hexplained := isExplained before
  obtain ⟨qos, n, hslot⟩ := (Tracker.awaits_eq_true_iff ..).1 hawaits
  have hwait := (hexplained.awaiting hslot).1
  obtain ⟨t, q, hslot', -, heq⟩ | ⟨t, q, early, -, heq⟩ | ⟨-, -, heq⟩ :=
    (after before).tracker.resolve_cases id ack
  · rw [hslot] at hslot'
    cases hslot'
    have hafter : after (before ++ [.resolve id ack]) =
        ⟨(after before).tracker.settleFor ticket, (after before).waiting⟩ := by
      simp [Event.apply, Event.happen, heq]
    rw [hafter]
    exact ⟨⟨⟨id, hwait⟩, (hexplained.waiting hwait).1, by simp [Tracker.settleFor],
      by simp [Tracker.settleFor]⟩, rfl⟩
  -- In the other cases nothing was acknowledged.
  all_goals
    rw [heq] at hresolves
    cases hresolves

/-- While the publisher does not look, its acknowledgement is remembered until the next one of
another delivery. -/
theorem isLeft_between (hawaits : (after before).tracker.awaits ticket = true)
    (hresolves : ((after before).tracker.resolve id ack).1 = true) (between : List Event)
    (hbetween : ∀ e ∈ between, e ≠ .wake ticket ∧ e ≠ .expire ticket) :
    IsLeft ticket (after (before ++ .resolve id ack :: between)) ∧
      ((after (before ++ .resolve id ack :: between)).tracker.resolved = some ticket ↔
        ∀ earlier e later, between = earlier ++ e :: later →
          e.settles (after (before ++ .resolve id ack :: earlier)) = false) := by
  induction between using List.reverseRecOn with
  | nil =>
    obtain ⟨hleft, hresolved⟩ := isLeft_resolve hawaits hresolves
    exact ⟨hleft, iff_of_true hresolved (by simp)⟩
  | append_singleton between e ih =>
    obtain ⟨hleft, hiff⟩ := ih fun e' he' => hbetween e' (List.mem_append_left _ he')
    obtain ⟨hwake, hexpire⟩ := hbetween e (by simp)
    obtain ⟨hleft', hiff'⟩ := hleft.apply hwake hexpire
    rw [← List.cons_append, ← List.append_assoc, after_concat]
    refine ⟨hleft', hiff'.trans ?_⟩
    rw [hiff]
    constructor
    · rintro ⟨hearlier, hlast⟩ earlier e' later heq
      -- The event is the last one, or one of those before.
      obtain rfl | ⟨later, last, rfl⟩ := List.eq_nil_or_concat later
      · obtain ⟨rfl, hlast'⟩ := List.append_inj' heq rfl
        exact List.head_eq_of_cons_eq hlast' ▸ hlast
      · have hconcat : between ++ [e] = (earlier ++ e' :: later) ++ [last] := by simpa using heq
        exact hearlier earlier e' later (List.append_inj_left' hconcat rfl)
    · intro h
      exact ⟨fun earlier e' later heq => h earlier e' (later ++ [e]) (by simp [heq]),
        h between e [] rfl⟩

/-- **Who was acknowledged learns so, as long as no other delivery is acknowledged before it
looks.** Otherwise it is told that another took its place, and never that its time is up. Whoever
else uses its ticket in the meantime is told at once that another took its place. -/
theorem told_after_acknowledged (hawaits : (after before).tracker.awaits ticket = true)
    (hresolves : ((after before).tracker.resolve id ack).1 = true) {between : List Event}
    (hbetween : ∀ e ∈ between, e ≠ .wake ticket ∧ e ≠ .expire ticket) {e : Event}
    (he : e = .wake ticket ∨ e = .expire ticket) :
    (∃ outcome,
      e.told (after (before ++ .resolve id ack :: between)) = some (ticket, outcome) ∧
      (outcome = .confirmed ∨ outcome = .superseded) ∧
      (outcome = .confirmed ↔ ∀ earlier e' later, between = earlier ++ e' :: later →
        e'.settles (after (before ++ .resolve id ack :: earlier)) = false)) ∧
    ∀ id', (Event.record ticket id').told (after before) = some (ticket, .superseded) := by
  obtain ⟨hleft, hiff⟩ := isLeft_between hawaits hresolves between hbetween
  refine ⟨⟨_, hleft.told he, ?_, ?_⟩, fun id' => ?_⟩
  · rw [Tracker.outcome]
    split
    · exact .inl rfl
    · exact .inr rfl
  · rw [Tracker.outcome_eq_confirmed_iff]
    exact hiff
  · obtain ⟨qos, n, hslot⟩ := (Tracker.awaits_eq_true_iff ..).1 hawaits
    simp [Event.told, Event.happen, Tracker.record, hslot]

/-- A publisher that was acknowledged finds so although another one has begun to wait. -/
theorem told_confirmed_with_newer_waiting :
    let before : List Event := [.arm .atLeastOnce, .record ⟨1⟩ 7]
    let between : List Event := [.arm .atLeastOnce, .record ⟨2⟩ 8, .resolve 7 .confirmed]
    (∃ outcome, (Event.wake ⟨1⟩).told (after (before ++ .resolve 7 .confirmed :: between)) =
        some (⟨1⟩, outcome) ∧
      (outcome = .confirmed ∨ outcome = .superseded) ∧
      (outcome = .confirmed ↔ ∀ earlier e' later, between = earlier ++ e' :: later →
        e'.settles (after (before ++ .resolve 7 .confirmed :: earlier)) = false)) ∧
    (∀ id', (Event.record ⟨1⟩ id').told (after before) = some (⟨1⟩, .superseded)) ∧
    (Event.wake ⟨1⟩).told (after (before ++ .resolve 7 .confirmed :: between)) =
      some (⟨1⟩, .confirmed) := by
  intro before between
  have hawaits : (after before).tracker.awaits ⟨1⟩ = true := by decide
  have hresolves : ((after before).tracker.resolve 7 .confirmed).1 = true := by decide
  have hbetween : ∀ e ∈ between, e ≠ .wake ⟨1⟩ ∧ e ≠ .expire ⟨1⟩ := by decide
  obtain ⟨htold, hsecond⟩ := told_after_acknowledged hawaits hresolves hbetween (.inl rfl)
  exact ⟨htold, hsecond, by decide⟩

/-- **Not everyone who was acknowledged learns so.** The second publisher takes its ticket only
after the first one was acknowledged, and is acknowledged before the first one looks. Nor does
everyone who uses a ticket that is waited with already. -/
theorem told_superseded_after_acknowledged :
    let before : List Event := [.arm .atLeastOnce, .record ⟨1⟩ 7]
    let between : List Event := [.arm .atLeastOnce, .record ⟨2⟩ 8, .resolve 8 .confirmed]
    (after before).tracker.awaits ⟨1⟩ = true ∧
    ((after before).tracker.resolve 7 .confirmed).1 = true ∧
    (Event.wake ⟨1⟩).told (after (before ++ .resolve 7 .confirmed :: between)) =
      some (⟨1⟩, .superseded) ∧
    (Event.expire ⟨1⟩).told (after (before ++ .resolve 7 .confirmed :: between)) =
      some (⟨1⟩, .superseded) ∧
    (Event.record ⟨1⟩ 7).told (after before) = some (⟨1⟩, .superseded) := by
  decide

end Uplink.Delivery
