import Uplink.Pool.Basic

/-!
# In which order jobs are started

A pool starts jobs in the order in which it took them, each of them once, and the number of a job is
its place among those that were taken. Nothing but a job that is submitted changes what there is to
be done.
-/

namespace Uplink.Pool

variable {κ : Type}

/-- A pool serves the jobs that it took: the first of them were started, the others are in the
queue, and what is active is one of those that were started. -/
structure Serves (jobs : List κ) (p : Pool κ) : Prop where
  started_le : p.started ≤ jobs.length
  queue : p.queue = jobs.drop p.started
  active : ∀ job ∈ p.active, job.1 < p.started ∧ jobs[job.1]? = some job.2

theorem serves_ofSize (size : Nat) : (ofSize size : Pool κ).Serves [] :=
  ⟨Nat.le_refl 0, rfl, by simp [ofSize]⟩

/-- From one pool to the other jobs were started or came to their end, and none was submitted. -/
structure Proceeds (p p' : Pool κ) : Prop where
  serves : ∀ jobs, p.Serves jobs → p'.Serves jobs
  started_le : p.started ≤ p'.started
  isActive : ∀ n, p'.isActive n = true → p.isActive n = true ∨ p.started ≤ n
  size : p'.size = p.size

namespace Proceeds

variable {p p' p'' : Pool κ}

theorem trans (h : Proceeds p p') (h' : Proceeds p' p'') : Proceeds p p'' := by
  refine ⟨fun jobs hs => h'.serves jobs (h.serves jobs hs),
    Nat.le_trans h.started_le h'.started_le, fun n hn => ?_, h'.size.trans h.size⟩
  rcases h'.isActive n hn with hn | hn
  · exact h.isActive n hn
  · exact .inr (Nat.le_trans h.started_le hn)

/-- Only jobs came to their end. -/
theorem of_ebb (hqueue : p'.queue = p.queue) (hstarted : p'.started = p.started)
    (hactive : ∀ job ∈ p'.active, job ∈ p.active) (hsize : p'.size = p.size) : Proceeds p p' := by
  refine ⟨fun jobs hs => ⟨?_, ?_, fun job hj => ?_⟩, Nat.le_of_eq hstarted.symm, fun n hn => ?_,
    hsize⟩
  · rw [hstarted]
    exact hs.started_le
  · rw [hqueue, hstarted]
    exact hs.queue
  · rw [hstarted]
    exact hs.active job (hactive job hj)
  · obtain ⟨job, hj, hnumber⟩ := List.any_eq_true.1 hn
    exact .inl (List.any_eq_true.2 ⟨job, hactive job hj, hnumber⟩)

theorem of_same (hqueue : p'.queue = p.queue) (hstarted : p'.started = p.started)
    (hactive : p'.active = p.active) (hsize : p'.size = p.size) : Proceeds p p' :=
  of_ebb hqueue hstarted (fun _ hj => hactive ▸ hj) hsize

theorem refl (p : Pool κ) : Proceeds p p := of_same rfl rfl rfl rfl

/-- The first job in the queue is started. -/
theorem of_start {job : κ} {queue : List κ} (hqueue : p.queue = job :: queue)
    (hqueue' : p'.queue = queue) (hactive : p'.active = p.active ++ [(p.started, job)])
    (hstarted : p'.started = p.started + 1) (hsize : p'.size = p.size) : Proceeds p p' := by
  refine ⟨fun jobs hs => ?_, by omega, fun n hn => ?_, hsize⟩
  · have hdrop : jobs.drop p.started = job :: queue := hs.queue.symm.trans hqueue
    have hnext : jobs[p.started]? = some job := by
      rw [← List.head?_drop, hdrop, List.head?_cons]
    have hlt : p.started < jobs.length := (List.getElem?_eq_some_iff.1 hnext).1
    refine ⟨by omega, ?_, fun j hj => ?_⟩
    · rw [hqueue', hstarted, ← List.tail_drop, hdrop, List.tail_cons]
    · rw [hactive] at hj
      rcases List.mem_append.1 hj with hj | hj
      · obtain ⟨hbefore, hjob⟩ := hs.active j hj
        exact ⟨by omega, hjob⟩
      · rw [List.mem_singleton.1 hj]
        exact ⟨by omega, hnext⟩
  · rw [Pool.isActive, hactive, List.any_append, Bool.or_eq_true] at hn
    rcases hn with hn | hn
    · exact .inl hn
    · exact .inr (Nat.le_of_eq (by simpa using hn))

end Proceeds

variable (p : Pool κ)

theorem proceeds_leave (i : Nat) (left : Option Nat) : p.Proceeds (p.leave i left).2 :=
  .of_same rfl rfl rfl (size_setWorker ..)

theorem proceeds_stop (number : Nat) : p.Proceeds (p.stop number) :=
  .of_ebb rfl rfl (fun _ hj => (List.mem_filter.1 hj).1) rfl

theorem proceeds_finish (number : Nat) : p.Proceeds (p.finish number).2 := p.proceeds_stop number

theorem proceeds_close (deadline : Nat) : p.Proceeds (p.close deadline).2 :=
  .of_same rfl rfl rfl rfl

theorem proceeds_take (i : Nat) : p.Proceeds (p.take i).2 := by
  rw [Pool.take]
  split
  · split
    · next job queue hqueue => exact .of_start hqueue rfl rfl rfl (size_setWorker ..)
    · split
      · exact p.proceeds_leave i none
      · exact .refl p
  · exact .refl p

theorem proceeds_turn (i : Nat) : p.Proceeds (p.turn i).2 := by
  have hset : p.Proceeds ({ p with line := p.line ++ [i] }.setWorker i .inLine) :=
    .of_same rfl rfl rfl (size_setWorker ..)
  have hline := hset.trans (proceeds_take _ i)
  rw [Pool.turn]
  split
  · exact .refl p
  · split
    · exact p.proceeds_leave i none
    · exact hline
  · split
    · exact p.proceeds_leave i none
    · exact p.proceeds_take i
  · split
    · exact p.proceeds_leave i _
    · split
      · exact .refl p
      · exact hline

theorem proceeds_seeOff (deadline now : Nat) (workers : List Nat) :
    p.Proceeds (Pool.seeOff deadline now workers p).2 := by
  induction workers generalizing p with
  | nil => exact .of_same rfl rfl rfl rfl
  | cons i rest ih =>
    rw [Pool.seeOff]
    split
    · next left _ =>
      cases left with
      | none => exact ih p
      | some number => exact (p.proceeds_stop number).trans (ih _)
    · dsimp only
      split <;> exact .of_same rfl rfl rfl rfl

theorem proceeds_closing (now : Nat) : p.Proceeds (p.closing now).2 := by
  rw [Pool.closing]
  split
  · exact .refl p
  · exact p.proceeds_seeOff ..

variable {p}

theorem isActive_stop (number : Nat) : (p.stop number).isActive number = false := by
  rw [isActive, stop, List.any_filter]
  simp

/-- A pool takes the next job: it is open and has a place for it. -/
def takes (p : Pool κ) : Bool := !p.closed && p.queue.length < queueDepth * p.size

/-- Jobs that are taken come after all that were taken before. -/
theorem Serves.enqueue {jobs : List κ} (h : p.Serves jobs) (more : List κ) :
    { p with queue := p.queue ++ more }.Serves (jobs ++ more) := by
  refine ⟨?_, ?_, fun job hj => ?_⟩
  · rw [List.length_append]
    exact Nat.le_trans h.started_le (Nat.le_add_right ..)
  · show p.queue ++ more = _
    rw [List.drop_append_of_le_length h.started_le, h.queue]
  · obtain ⟨hbefore, hjob⟩ := h.active job hj
    exact ⟨hbefore, List.getElem?_append_left (Nat.lt_of_lt_of_le hbefore h.started_le) ▸ hjob⟩

end Uplink.Pool
