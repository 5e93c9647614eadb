import Uplink.Proofs.Delivery.Early

/-!
# Tickets that are spent

A ticket gets into the slot of a tracker when it is taken, and stands for a wait only if its own
publisher uses it. Whatever others do with tickets of theirs, one that is not used does not come to
be waited with, and one that has left the slot does not come back.
-/

namespace Uplink.Delivery.Tracker

/-- From one tracker to the other, no ticket that was taken before got into the slot, and none that
was only taken came to be waited with. -/
structure Renews (t t' : Tracker) : Prop where
  generations_le : t.generations ≤ t'.generations
  armed : ∀ {ticket : Ticket} {qos : Qos} {early : List (Nat × Acknowledgement)},
    ticket.generation ≤ t.generations → t'.slot = .armed ticket qos early →
      ∃ early', t.slot = .armed ticket qos early'
  awaiting : ∀ {ticket : Ticket} {qos : Qos} {id : Nat},
    ticket.generation ≤ t.generations → t'.slot = .awaiting ticket qos id →
      t.slot = .awaiting ticket qos id

namespace Renews

variable {t t' t'' : Tracker}

theorem of_same (hslot : t'.slot = t.slot) (hgenerations : t'.generations = t.generations) :
    Renews t t' :=
  ⟨Nat.le_of_eq hgenerations.symm, fun _ h => ⟨_, hslot ▸ h⟩, fun _ h => hslot ▸ h⟩

theorem refl (t : Tracker) : Renews t t := of_same rfl rfl

theorem of_idle (hslot : t'.slot = .idle) (hle : t.generations ≤ t'.generations) : Renews t t' :=
  ⟨hle, fun _ h => (by rw [hslot] at h; cases h), fun _ h => (by rw [hslot] at h; cases h)⟩

theorem trans (h : Renews t t') (h' : Renews t' t'') : Renews t t'' := by
  refine ⟨Nat.le_trans h.generations_le h'.generations_le, fun hold hslot => ?_,
    fun hold hslot => ?_⟩
  · obtain ⟨early, hbetween⟩ := h'.armed (Nat.le_trans hold h.generations_le) hslot
    exact h.armed hold hbetween
  · exact h.awaiting hold (h'.awaiting (Nat.le_trans hold h.generations_le) hslot)

end Renews

variable (t : Tracker)

/-! ## 1. What is done with a tracker -/

theorem renews_arm (qos : Qos) : t.Renews (t.arm qos).2 := by
  refine ⟨Nat.le_succ _, fun hold hslot => ?_, nofun⟩
  -- The ticket that is taken is of a later generation.
  cases hslot
  exact absurd hold (Nat.not_succ_le_self _)

theorem generations_disarm (ticket : Ticket) : (t.disarm ticket).generations = t.generations := by
  obtain ⟨-, heq⟩ | heq := t.disarm_cases ticket <;> rw [heq]

theorem renews_disarm (ticket : Ticket) : t.Renews (t.disarm ticket) := by
  obtain ⟨-, heq⟩ | heq := t.disarm_cases ticket <;> rw [heq]
  · exact .of_idle rfl (Nat.le_refl _)
  · exact .refl t

theorem renews_resolve (id : Nat) (ack : Acknowledgement) : t.Renews (t.resolve id ack).2 := by
  obtain ⟨ticket, qos, -, -, heq⟩ | ⟨ticket, qos, early, hslot, heq⟩ | ⟨-, -, heq⟩ :=
    t.resolve_cases id ack <;> rw [heq]
  · exact .of_idle rfl (Nat.le_refl _)
  · refine ⟨Nat.le_refl _, fun _ h => ?_, nofun⟩
    cases h
    exact ⟨early, hslot⟩
  · exact .refl t

theorem renews_poll (ticket : Ticket) (deadline now : Nat) :
    t.Renews (t.poll ticket deadline now).2 := by
  unfold poll
  split
  · exact .refl t
  · split
    · obtain ⟨qos, id, -, heq⟩ | ⟨-, heq⟩ := t.expire_cases ticket <;> rw [heq]
      · exact .of_idle rfl (Nat.le_refl _)
      · exact .refl t
    · exact .refl t

/-- Who takes a ticket and uses it at once puts no other into the slot. -/
theorem renews_begin (qos : Qos) (id deadline now : Nat) :
    t.Renews ((t.arm qos).2.begin (t.arm qos).1 id deadline now).2 := by
  -- Nothing was acknowledged between the two.
  have hnone : ¬Clears id qos [] := by
    rintro ⟨ack, hmem, -⟩
    cases hmem
  let waits : Tracker := { (t.arm qos).2 with slot := .awaiting (t.arm qos).1 qos id }
  have hrecord : (t.arm qos).2.record (t.arm qos).1 id = (none, waits) :=
    record_of_not_clears rfl hnone
  have hwaits : t.Renews waits := by
    refine ⟨Nat.le_succ _, nofun, fun hold hslot => ?_⟩
    cases hslot
    exact absurd hold (Nat.not_succ_le_self _)
  rw [begin, hrecord]
  exact hwaits.trans (waits.renews_poll ..)

/-! ## 2. Tickets that are not used -/

/-- A ticket was taken, and it is not in the slot. -/
structure IsSpent (ticket : Ticket) (t : Tracker) : Prop where
  taken : ticket.generation ≤ t.generations
  notArmed : ∀ qos early, t.slot ≠ .armed ticket qos early
  notAwaiting : ∀ qos id, t.slot ≠ .awaiting ticket qos id

variable {t} {t' : Tracker} {ticket : Ticket}

theorem isSpent_of_idle (h : t.slot = .idle) (htaken : ticket.generation ≤ t.generations) :
    t.IsSpent ticket :=
  ⟨htaken, by rw [h]; exact nofun, by rw [h]; exact nofun⟩

/-- **A ticket that is spent stays so.** -/
theorem IsSpent.renews (h : t.IsSpent ticket) (hrenews : t.Renews t') : t'.IsSpent ticket := by
  refine ⟨Nat.le_trans h.taken hrenews.generations_le, fun qos early hslot => ?_,
    fun qos id hslot => ?_⟩
  · obtain ⟨early', hbefore⟩ := hrenews.armed h.taken hslot
    exact h.notArmed qos early' hbefore
  · exact h.notAwaiting qos id (hrenews.awaiting h.taken hslot)

/-- A ticket that was taken, and not used since, is spent when it is given back. -/
theorem isSpent_disarm {qos : Qos} (h : (t.arm qos).2.Renews t') :
    (t'.disarm (t.arm qos).1).IsSpent (t.arm qos).1 := by
  have htaken : (t.arm qos).1.generation ≤ t'.generations := h.generations_le
  have hunused (q : Qos) (id : Nat) : t'.slot ≠ .awaiting (t.arm qos).1 q id := by
    intro hslot
    cases h.awaiting (Nat.le_refl _) hslot
  obtain ⟨hidle, heq⟩ | heq := t'.disarm_cases (t.arm qos).1
  · exact isSpent_of_idle hidle (by rw [heq]; exact htaken)
  · rw [heq]
    refine ⟨htaken, fun q early hslot => ?_, hunused⟩
    -- A ticket in the slot would have been taken out of it.
    rw [disarm, hslot] at heq
    dsimp only at heq
    rw [if_pos rfl] at heq
    have hslot' := congrArg slot heq
    rw [hslot] at hslot'
    cases hslot'

end Uplink.Delivery.Tracker
