import Uplink.Pool.Basic

/-!
# Jobs stay as they were submitted

Nothing that a pool does makes a job or changes one: what holds of all jobs when they are submitted
holds of those in the queue and of those that were started. In particular, a pool without jobs has
none until one is submitted.
-/

namespace Uplink.Pool

variable {κ : Type} {P : κ → Prop}

structure AllJobs (P : κ → Prop) (p : Pool κ) : Prop where
  queue : ∀ job ∈ p.queue, P job
  active : ∀ job ∈ p.active, P job.2

/-- Only the queue and the jobs that were started matter. -/
theorem AllJobs.of_jobs {p p' : Pool κ} (h : p.AllJobs P) (hqueue : ∀ job ∈ p'.queue, job ∈ p.queue)
    (hactive : ∀ job ∈ p'.active, job ∈ p.active) : p'.AllJobs P :=
  ⟨fun job hj => h.queue job (hqueue job hj), fun job hj => h.active job (hactive job hj)⟩

theorem AllJobs.leave {p : Pool κ} (h : p.AllJobs P) (i : Nat) (left : Option Nat) :
    (p.leave i left).2.AllJobs P :=
  h.of_jobs (fun _ hj => hj) (fun _ hj => hj)

theorem AllJobs.stop {p : Pool κ} (h : p.AllJobs P) (number : Nat) : (p.stop number).AllJobs P :=
  h.of_jobs (fun _ hj => hj) (fun _ hj => (List.mem_filter.1 hj).1)

theorem AllJobs.finish {p : Pool κ} (h : p.AllJobs P) (number : Nat) :
    (p.finish number).2.AllJobs P :=
  h.stop number

theorem AllJobs.take {p : Pool κ} (h : p.AllJobs P) (i : Nat) : (p.take i).2.AllJobs P := by
  rw [Pool.take]
  split
  · split
    · next job queue hq =>
      have hjob : ∀ j ∈ job :: queue, P j := hq ▸ h.queue
      refine ⟨fun j hj => hjob j (List.mem_cons_of_mem _ hj), fun j hj => ?_⟩
      rcases List.mem_append.1 hj with hj | hj
      · exact h.active j hj
      · rw [List.mem_singleton.1 hj]
        exact hjob job List.mem_cons_self
    · split
      · exact h.leave i none
      · exact h
  · exact h

theorem AllJobs.turn {p : Pool κ} (h : p.AllJobs P) (i : Nat) : (p.turn i).2.AllJobs P := by
  have hset : ({ p with line := p.line ++ [i] }.setWorker i .inLine).AllJobs P :=
    h.of_jobs (fun _ hj => hj) (fun _ hj => hj)
  have hline := hset.take i
  rw [Pool.turn]
  split
  · exact h
  · split
    · exact h.leave i none
    · exact hline
  · split
    · exact h.leave i none
    · exact h.take i
  · split
    · exact h.leave i _
    · split
      · exact h
      · exact hline

theorem AllJobs.close {p : Pool κ} (h : p.AllJobs P) (deadline : Nat) :
    (p.close deadline).2.AllJobs P :=
  h.of_jobs (fun _ hj => hj) (fun _ hj => hj)

theorem AllJobs.seeOff {p : Pool κ} (h : p.AllJobs P) (deadline now : Nat) (workers : List Nat) :
    (Pool.seeOff deadline now workers p).2.AllJobs P := by
  induction workers generalizing p with
  | nil => exact h.of_jobs (fun _ hj => hj) (fun _ hj => hj)
  | cons i rest ih =>
    rw [Pool.seeOff]
    split
    · next left _ =>
      cases left with
      | none => exact ih h
      | some number => exact ih (h.stop number)
    · dsimp only
      split <;> exact h.of_jobs (fun _ hj => hj) (fun _ hj => hj)

theorem AllJobs.closing {p : Pool κ} (h : p.AllJobs P) (now : Nat) :
    (p.closing now).2.AllJobs P := by
  rw [Pool.closing]
  split
  · exact h
  · exact h.seeOff ..

/-- A job that finds a place is the last of the queue. -/
theorem submit_eq_ok {p : Pool κ} {job : κ} {result : List Strand × Pool κ}
    (h : p.submit job = .ok result) : result.2 = { p with queue := p.queue ++ [job] } := by
  rw [Pool.submit] at h
  split at h
  · cases h
  · split at h
    · cases h
    · cases h
      rfl

theorem AllJobs.submit {p : Pool κ} (h : p.AllJobs P) {job : κ} (hjob : P job)
    {result : List Strand × Pool κ} (hr : p.submit job = .ok result) : result.2.AllJobs P := by
  rw [submit_eq_ok hr]
  refine ⟨fun j hj => ?_, h.active⟩
  rcases List.mem_append.1 hj with hj | hj
  · exact h.queue j hj
  · rw [List.mem_singleton.1 hj]
    exact hjob

/-! ## Pools without jobs -/

/-- A pool that is open and has no jobs. -/
structure IsIdle (p : Pool κ) : Prop where
  queue : p.queue = []
  active : p.active = []
  closed : p.closed = false
  dismissed : p.dismissed = []

theorem isIdle_ofSize (size : Nat) : (ofSize size : Pool κ).IsIdle := ⟨rfl, rfl, rfl, rfl⟩

theorem IsIdle.setWorker {p : Pool κ} (h : p.IsIdle) (i : Nat) (w : Worker) (line : List Nat) :
    ({ p with line }.setWorker i w).IsIdle :=
  ⟨h.queue, h.active, h.closed, h.dismissed⟩

theorem IsIdle.take {p : Pool κ} (h : p.IsIdle) (i : Nat) : p.take i = ([], p) := by
  rw [Pool.take]
  split
  · rw [h.queue]
    simp [h.closed]
  · rfl

/-- In a pool without jobs a worker gets in line at most. -/
theorem IsIdle.turn {p : Pool κ} (h : p.IsIdle) (i : Nat) :
    (p.turn i).1 = [] ∧ (p.turn i).2.IsIdle ∧ (p.turn i).2.size = p.size := by
  have hline := h.setWorker i .inLine (p.line ++ [i])
  have hsize : ({ p with line := p.line ++ [i] }.setWorker i .inLine).size = p.size :=
    List.length_set
  have hfree : i ∉ p.dismissed := by simp [h.dismissed]
  rw [Pool.turn]
  split
  · exact ⟨rfl, h, rfl⟩
  · rw [if_neg hfree, hline.take]
    exact ⟨rfl, hline, hsize⟩
  · rw [if_neg hfree, h.take]
    exact ⟨rfl, h, rfl⟩
  · next job _ =>
    have hover : p.isActive job = false := by simp [isActive, h.active]
    rw [if_neg hfree, hover, if_neg Bool.false_ne_true, hline.take]
    exact ⟨rfl, hline, hsize⟩

end Uplink.Pool
