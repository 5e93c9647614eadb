import Uplink.Proofs.Gateway.Events
import Uplink.Proofs.Options
import Uplink.Proofs.Pool.Accounts

/-!
# What all events leave as it is

Options change only when a gateway is configured, and the number of its workers never does. A ticket
for a delivery is used by the publisher that took it and by nobody else, so that one which was given
back is never in the slot again, whatever happens.
-/

namespace Uplink.Gateway

variable {σ : Type} [Transport σ]

/-- There are as many workers as options say. -/
def IsManned (g : Gateway σ) : Prop := g.pool.size = g.options.dispatchWorkers

/-- Options are accepted only if they ask for the workers that there are. -/
theorem dispatchWorkers_of_configure {g g' : Gateway σ} {options : Options}
    (h : g.configure options = .ok g') : options.dispatchWorkers = g.pool.size := by
  unfold configure at h
  split at h
  · cases h
  · split at h
    · next heq => exact heq
    · cases h

theorem size_apply (e : Event σ) (g : Gateway σ) : (e.apply g).pool.size = g.pool.size := by
  obtain ⟨_, -, hspares⟩ | hleaves := spares_or_leaves e g
  · exact hspares.pool.size
  · exact hleaves.size

theorem renews_apply (e : Event σ) (g : Gateway σ) :
    g.tracker.Renews (e.apply g).tracker := by
  obtain ⟨_, -, hspares⟩ | hleaves := spares_or_leaves e g
  · exact hspares.tracker
  · exact hleaves.tracker

theorem options_apply {e : Event σ} (he : ∀ options, e ≠ .configure options) (g : Gateway σ) :
    (e.apply g).options = g.options := by
  obtain ⟨_, -, hspares⟩ | hleaves := spares_or_leaves e g
  · exact hspares.options
  · exact hleaves.options he

theorem isManned_apply {g : Gateway σ} (h : g.IsManned) (e : Event σ) :
    (e.apply g).IsManned := by
  rw [IsManned, size_apply]
  by_cases he : ∀ options, e ≠ .configure options
  · rw [options_apply he]
    exact h
  · rw [not_forall_not] at he
    obtain ⟨options, rfl⟩ := he
    rw [Event.apply]
    cases hok : g.configure options with
    | error fault => exact h
    | ok g' =>
      -- Options that ask for other workers would have been refused.
      obtain ⟨_, _, _, _, hasks⟩ := asks_of_configure hok
      show g.pool.size = g'.options.dispatchWorkers
      rw [hasks.options]
      exact (dispatchWorkers_of_configure hok).symm

omit [Transport σ] in
theorem isManned_of_create {options : Options} {transport : σ} {device : Device} {clock : Clock}
    {verifier : Option (Topic → Payload → Bool)} {g : Gateway σ}
    (h : create options transport device clock verifier = .ok g) : g.IsManned := by
  rw [create] at h
  split at h
  · cases h
  · next hvalid =>
    cases h
    show (Pool.ofSize options.dispatchWorkers : Pool (List Step)).size = options.dispatchWorkers
    have hworkers := (Options.inOrder_of_validate hvalid).dispatchWorkers
    rw [Pool.size_ofSize]
    omega

/-- **Only tickets that were taken in a history are used in it.** -/
theorem renews_after (g : Gateway σ) (events : List (Event σ)) :
    g.tracker.Renews (g.after events).tracker :=
  after_induction (motive := fun g' => g.tracker.Renews g'.tracker) events (.refl _)
    fun g' e h => h.trans (renews_apply e g')

/-- **The number of workers is always the one that options say.** -/
theorem isManned_after {g : Gateway σ} (h : g.IsManned) (events : List (Event σ)) :
    (g.after events).IsManned :=
  after_induction events h fun _ e h => isManned_apply h e

end Uplink.Gateway
