import Uplink.Proofs.Pool.Order
import Uplink.Proofs.Pool.Workers

/-!
# What becomes of jobs

Whatever happens to a pool, in whatever order: every job that it accepted waits in the queue, is
running, or came to its end in one of the ways there are. No more jobs run than there are workers,
workers stay until the queue is done or the deadline has come, and once the end of the pool has come,
nothing is running and nothing starts any more.
-/

namespace Uplink.Pool

variable {κ : Type}

/-! ## 1. Events -/

/-- What can happen to a pool. Any worker may have its turn at any time, and so may who waits for the
end of the pool. -/
inductive Event (κ : Type) where
  | submit (job : κ)
  | turn (worker : Nat)
  /-- A job that was started is over, and it failed or not. -/
  | finish (number : Nat) (failed : Bool)
  | pass (ms : Nat)
  | close (grace : Nat)
  | look

structure Book (κ : Type) where
  pool : Pool κ
  now : Nat := 0
  accepted : List κ := []
  /-- The jobs that were started, with their numbers. -/
  taken : List (Nat × κ) := []
  /-- The numbers of the jobs that were over, and whether they failed. -/
  ended : List (Nat × Bool) := []
  aborted : List Nat := []
  /-- Until when there was time when the pool was shut down. -/
  deadline : Option Nat := none
  /-- When the end of the pool had come. -/
  returned : Option Nat := none

/-- The jobs that are active in one pool and not in another one. -/
def activeBeside (p other : Pool κ) : List (Nat × κ) :=
  p.active.filter fun job => !other.isActive job.1

namespace Book

/-- The book after an event. A pool is shut down once, and a job ends when it is active. -/
def after (b : Book κ) : Event κ → Book κ
  | .submit job =>
    match b.pool.submit job with
    | .ok (_, pool) => { b with pool, accepted := b.accepted ++ [job] }
    | .error _ => b
  | .turn i =>
    let pool := (b.pool.turn i).2
    { b with pool, taken := b.taken ++ pool.activeBeside b.pool }
  | .finish number failed =>
    if b.pool.isActive number then
      { b with pool := (b.pool.finish number).2, ended := b.ended ++ [(number, failed)] }
    else b
  | .pass ms => { b with now := b.now + ms }
  | .close grace =>
    if b.pool.closed then b
    else { b with
      pool := (b.pool.close (b.now + grace)).2
      deadline := some (b.now + grace) }
  | .look =>
    let pool := (b.pool.closing b.now).2
    { b with
      pool
      aborted := b.aborted ++ (b.pool.activeBeside pool).map (·.1)
      returned := if b.pool.drain.isSome && pool.drain.isNone then some b.now else b.returned }

def ofEvents (size : Nat) (events : List (Event κ)) : Book κ :=
  events.foldl after { pool := ofSize size }

end Book

/-! ## 2. What a turn does to the jobs -/

/-- A turn starts the first job of the queue, or none. -/
structure Works (p q : Pool κ) : Prop where
  size : q.size = p.size
  closed : q.closed = p.closed
  dismissed : q.dismissed = p.dismissed
  drain : q.drain = p.drain
  jobs : q.queue = p.queue ∧ q.active = p.active ∧ q.started = p.started ∨
    ∃ job, p.queue = job :: q.queue ∧ q.active = p.active ++ [(p.started, job)] ∧
      q.started = p.started + 1

namespace Works

variable {p q q' : Pool κ}

theorem refl (p : Pool κ) : Works p p := ⟨rfl, rfl, rfl, rfl, .inl ⟨rfl, rfl, rfl⟩⟩

theorem leave (p : Pool κ) (i : Nat) (left : Option Nat) : Works p (p.leave i left).2 :=
  ⟨size_setWorker .., rfl, rfl, rfl, .inl ⟨rfl, rfl, rfl⟩⟩

theorem take (p : Pool κ) (i : Nat) : Works p (p.take i).2 := by
  rw [Pool.take]
  split
  · split
    · next job queue hqueue =>
      exact ⟨size_setWorker .., rfl, rfl, rfl, .inr ⟨job, hqueue, rfl, rfl⟩⟩
    · split
      · exact leave p i none
      · exact refl p
  · exact refl p

theorem turn (p : Pool κ) (i : Nat) : Works p (p.turn i).2 := by
  have hline : Works p (({ p with line := p.line ++ [i] }.setWorker i .inLine).take i).2 := by
    have h := take ({ p with line := p.line ++ [i] }.setWorker i .inLine) i
    exact ⟨h.size.trans (size_setWorker ..), h.closed, h.dismissed, h.drain, h.jobs⟩
  rw [Pool.turn]
  split
  · exact refl p
  · split
    · exact leave p i none
    · exact hline
  · split
    · exact leave p i none
    · exact take p i
  · split
    · exact leave p i _
    · split
      · exact refl p
      · exact hline

end Works

theorem activeBeside_self (p : Pool κ) {q : Pool κ} (h : ∀ job ∈ q.active, p.isActive job.1 = true) :
    q.activeBeside p = [] := by
  rw [activeBeside, List.filter_eq_nil_iff]
  intro job hjob
  rw [h job hjob]
  exact nofun

theorem mem_activeBeside {p q : Pool κ} {k : Nat} :
    k ∈ (p.activeBeside q).map (·.1) ↔ p.isActive k = true ∧ q.isActive k = false := by
  rw [isActive_iff, List.mem_map, List.mem_map]
  constructor
  · rintro ⟨job, hjob, rfl⟩
    obtain ⟨hmem, hnot⟩ := List.mem_filter.1 hjob
    exact ⟨⟨job, hmem, rfl⟩, by simpa using hnot⟩
  · rintro ⟨⟨job, hmem, rfl⟩, hnot⟩
    exact ⟨job, List.mem_filter.2 ⟨hmem, by simpa using hnot⟩, rfl⟩

/-- The jobs that are active after a turn and were not before it. -/
theorem Works.activeBeside {p q : Pool κ} (h : Works p q) (hp : p.Sound) :
    q.queue = p.queue ∧ q.active = p.active ∧ q.started = p.started ∧ q.activeBeside p = [] ∨
      ∃ job, p.queue = job :: q.queue ∧ q.active = p.active ++ [(p.started, job)] ∧
        q.started = p.started + 1 ∧ q.activeBeside p = [(p.started, job)] := by
  have hold : p.activeBeside p = [] := activeBeside_self p fun _ => isActive_of_mem
  rcases h.jobs with ⟨hqueue, hactive, hstarted⟩ | ⟨job, hqueue, hactive, hstarted⟩
  · refine .inl ⟨hqueue, hactive, hstarted, ?_⟩
    rw [Pool.activeBeside, hactive]
    exact hold
  · refine .inr ⟨job, hqueue, hactive, hstarted, ?_⟩
    have hnew : p.isActive p.started = false :=
      Bool.eq_false_iff.2 fun hk => Nat.lt_irrefl _ (hp.active_lt hk)
    rw [Pool.activeBeside, hactive, List.filter_append]
    show p.activeBeside p ++ _ = _
    rw [hold]
    simp [hnew]

/-! ## 3. Books that balance -/

namespace Book

def past (b : Book κ) : List Nat := b.ended.map (·.1) ++ b.aborted

/-- The deadline has come. -/
def IsLate (b : Book κ) (time : Nat) : Prop := ∃ d, b.deadline = some d ∧ d ≤ time

/-- What a book says of the jobs of its pool. -/
structure Balances (size : Nat) (b : Book κ) : Prop where
  size : b.pool.size = max size 1
  sound : b.pool.Sound
  serves : b.pool.Serves b.accepted
  room : b.pool.queue.length ≤ queueDepth * b.pool.size
  numbers : b.taken.map (·.1) = List.range b.pool.started
  jobs : b.taken.map (·.2) = b.accepted.take b.pool.started
  fate : ∀ k < b.pool.started, b.pool.isActive k = true ∨ k ∈ b.past
  past : ∀ k ∈ b.past, k < b.pool.started ∧ b.pool.isActive k = false
  once : b.past.Nodup
  begun : b.pool.closed = b.deadline.isSome
  drain : ∀ d, b.pool.drain = some d → b.deadline = some d.deadline
  patient : b.pool.dismissed ≠ [] ∨ b.aborted ≠ [] → b.IsLate b.now
  returned : b.returned.isSome = true ↔ b.pool.closed = true ∧ b.pool.drain = none
  inTime : ∀ time, b.returned = some time →
    (∀ k < b.accepted.length, k ∈ b.ended.map (·.1)) ∨ b.IsLate time

theorem balances_new (size : Nat) : Balances size ({ pool := ofSize size } : Book κ) :=
  ⟨size_ofSize size, sound_ofSize size, serves_ofSize size, Nat.zero_le _, rfl, rfl, nofun, nofun,
    .nil, rfl, nofun, fun h => h.elim (absurd rfl) (absurd rfl), ⟨nofun, fun h => by cases h.1⟩,
    nofun⟩

namespace Balances

variable {size : Nat} {b : Book κ}

theorem submit (h : Balances size b) (job : κ) : Balances size (b.after (.submit job)) := by
  rw [after, Pool.submit]
  by_cases hclosed : b.pool.closed = true
  · rw [if_pos hclosed]
    exact h
  · rw [if_neg hclosed]
    by_cases hfull : queueDepth * b.pool.size ≤ b.pool.queue.length
    · rw [if_pos hfull]
      exact h
    · rw [if_neg hfull]
      have hnever (time : Nat) : b.returned ≠ some time := fun heq =>
        hclosed (h.returned.1 (by rw [heq]; rfl)).1
      have hroom : b.pool.queue.length < queueDepth * b.pool.size := Nat.lt_of_not_le hfull
      refine ⟨h.size, h.sound.enqueue (Bool.eq_false_iff.2 hclosed) _, h.serves.enqueue [job], ?_,
        h.numbers, ?_, h.fate, h.past, h.once, h.begun, h.drain, h.patient, h.returned,
        fun time heq => absurd heq (hnever time)⟩
      · rw [List.length_append]
        exact hroom
      · show b.taken.map (·.2) = (b.accepted ++ [job]).take b.pool.started
        rw [List.take_append_of_le_length h.serves.started_le]
        exact h.jobs

theorem turn (h : Balances size b) (i : Nat) : Balances size (b.after (.turn i)) := by
  have hworks := Works.turn b.pool i
  have hserves := (b.pool.proceeds_turn i).serves _ h.serves
  have hsound := h.sound.turn i
  rw [after]
  generalize (b.pool.turn i).2 = q at hworks hserves hsound ⊢
  have hreturned : b.returned.isSome = true ↔ q.closed = true ∧ q.drain = none := by
    rw [hworks.closed, hworks.drain]
    exact h.returned
  have hdrain (d : Drain) (hd : q.drain = some d) : b.deadline = some d.deadline :=
    h.drain d (hworks.drain ▸ hd)
  have hpatient (hp : q.dismissed ≠ [] ∨ b.aborted ≠ []) : b.IsLate b.now :=
    h.patient (hworks.dismissed ▸ hp)
  rcases hworks.activeBeside h.sound with
    ⟨hqueue, hactive, hstarted, hnew⟩ | ⟨job, hqueue, hactive, hstarted, hnew⟩
  · -- No job is started.
    have hsame (k : Nat) : q.isActive k = b.pool.isActive k := by rw [isActive, hactive, isActive]
    rw [hnew, List.append_nil]
    refine ⟨hworks.size.trans h.size, hsound, hserves, ?_, ?_, ?_, fun k hk => ?_, fun k hk => ?_,
      h.once, hworks.closed.trans h.begun, hdrain, hpatient, hreturned, h.inTime⟩
    · rw [hqueue, hworks.size]
      exact h.room
    · rw [hstarted]
      exact h.numbers
    · rw [hstarted]
      exact h.jobs
    · rw [hsame]
      exact h.fate k (hstarted ▸ hk)
    · rw [hsame, hstarted]
      exact h.past k hk
  · -- The first job of the queue is started. It is the first that was not taken yet.
    have hiff (k : Nat) : q.isActive k = true ↔ b.pool.isActive k = true ∨ k = b.pool.started := by
      rw [isActive_iff, hactive, List.map_append, List.mem_append, ← isActive_iff,
        List.map_singleton, List.mem_singleton]
    have hdrop : b.accepted.drop b.pool.started = job :: q.queue := h.serves.queue ▸ hqueue
    rw [hnew]
    refine ⟨hworks.size.trans h.size, hsound, hserves, ?_, ?_, ?_, fun k hk => ?_, fun k hk => ?_,
      h.once, hworks.closed.trans h.begun, hdrain, hpatient, hreturned, h.inTime⟩
    · have hroom := h.room
      rw [hqueue, List.length_cons, ← hworks.size] at hroom
      exact Nat.le_of_succ_le hroom
    · rw [hstarted, List.map_append, h.numbers, List.range_succ]
      rfl
    · have hnext : b.accepted[b.pool.started]? = some job := by
        rw [← List.head?_drop, hdrop]
        rfl
      rw [hstarted, List.map_append, h.jobs, List.take_add_one, hnext]
      rfl
    · rw [hstarted, Nat.lt_succ_iff_lt_or_eq] at hk
      rw [hiff]
      rcases hk with hk | hk
      · exact (h.fate k hk).imp_left .inl
      · exact .inl (.inr hk)
    · obtain ⟨hlt, hover⟩ := h.past k hk
      refine ⟨Nat.lt_of_lt_of_eq (Nat.lt_succ_of_lt hlt) hstarted.symm,
        Bool.eq_false_iff.2 fun hactive => ?_⟩
      rcases (hiff k).1 hactive with hbefore | rfl
      · rw [hover] at hbefore
        cases hbefore
      · exact Nat.lt_irrefl _ hlt

theorem shift (h : Balances size b) {q : Pool κ} {gone past : List Nat}
    (hstarted : q.started = b.pool.started)
    (hactive : ∀ k, q.isActive k = true → b.pool.isActive k = true)
    (hover : ∀ k, k ∈ gone ↔ b.pool.isActive k = true ∧ q.isActive k = false)
    (honce : gone.Nodup) (hperm : past.Perm (b.past ++ gone)) :
    (∀ k < q.started, q.isActive k = true ∨ k ∈ past) ∧
      (∀ k ∈ past, k < q.started ∧ q.isActive k = false) ∧ past.Nodup := by
  have hmem (k : Nat) : k ∈ past ↔ k ∈ b.past ∨ k ∈ gone := by
    rw [hperm.mem_iff, List.mem_append]
  refine ⟨fun k hk => ?_, fun k hk => ?_, hperm.nodup_iff.2 (List.nodup_append.2 ⟨h.once, honce, ?_⟩)⟩
  · rw [hmem, hover]
    rcases h.fate k (hstarted ▸ hk) with hbefore | hin
    · cases hq : q.isActive k with
      | true => exact .inl rfl
      | false => exact .inr (.inr ⟨hbefore, rfl⟩)
    · exact .inr (.inl hin)
  · rw [hstarted]
    rcases (hmem k).1 hk with hin | hin
    · obtain ⟨hlt, hnot⟩ := h.past k hin
      exact ⟨hlt, Bool.eq_false_iff.2 fun hstill => Bool.eq_false_iff.1 hnot (hactive k hstill)⟩
    · obtain ⟨hbefore, hnot⟩ := (hover k).1 hin
      exact ⟨h.sound.active_lt hbefore, hnot⟩
  · -- What is past was not active any more.
    rintro k hk _ hk' rfl
    exact Bool.eq_false_iff.1 (h.past k hk).2 ((hover k).1 hk').1

theorem finish (h : Balances size b) (number : Nat) (failed : Bool) :
    Balances size (b.after (.finish number failed)) := by
  rw [after]
  split
  · next hactive =>
    have hover (k : Nat) :
        k ∈ [number] ↔ b.pool.isActive k = true ∧ (b.pool.stop number).isActive k = false := by
      rw [List.mem_singleton, ← Bool.not_eq_true, isActive_stop_iff]
      grind
    have hperm : ((b.ended ++ [(number, failed)]).map (·.1) ++ b.aborted).Perm
        (b.past ++ [number]) := by
      rw [Book.past, List.map_append, List.append_assoc, List.append_assoc]
      exact List.perm_append_comm.append_left _
    obtain ⟨hfate, hpast, honce⟩ := h.shift (q := b.pool.stop number) rfl
      (fun k hk => (isActive_stop_iff.1 hk).1) hover (List.nodup_singleton number) hperm
    refine ⟨h.size, h.sound.stop number, (b.pool.proceeds_finish number).serves _ h.serves, h.room,
      h.numbers, h.jobs, hfate, hpast, honce, h.begun, h.drain, h.patient, h.returned,
      fun time hreturned => ?_⟩
    refine (h.inTime time hreturned).imp_left fun hall k hk => ?_
    show k ∈ (b.ended ++ [(number, failed)]).map (·.1)
    rw [List.map_append]
    exact List.mem_append_left _ (hall k hk)
  · exact h

theorem pass (h : Balances size b) (ms : Nat) : Balances size (b.after (.pass ms)) := by
  refine ⟨h.size, h.sound, h.serves, h.room, h.numbers, h.jobs, h.fate, h.past, h.once, h.begun,
    h.drain, fun hp => ?_, h.returned, h.inTime⟩
  obtain ⟨d, hd, hle⟩ := h.patient hp
  exact ⟨d, hd, Nat.le_add_right_of_le hle⟩

theorem close (h : Balances size b) (grace : Nat) : Balances size (b.after (.close grace)) := by
  rw [after]
  split
  · exact h
  · next hclosed =>
    have hopen : b.pool.closed = false := Bool.eq_false_iff.2 hclosed
    have hnone : b.deadline = none := by
      rw [← Option.isNone_iff_eq_none, ← Option.not_isSome, ← h.begun, hopen]
      rfl
    have hnever : b.returned = none := by
      cases hreturned : b.returned with
      | none => rfl
      | some time => exact absurd (h.returned.1 (by rw [hreturned]; rfl)).1 hclosed
    refine ⟨h.size, h.sound.close hopen _, (b.pool.proceeds_close _).serves _ h.serves, h.room,
      h.numbers, h.jobs, h.fate, h.past, h.once, rfl, by rintro _ ⟨⟩; rfl, fun hp => ?_, ?_, ?_⟩
    · obtain ⟨d, hd, -⟩ := h.patient hp
      rw [hnone] at hd
      cases hd
    · show b.returned.isSome = true ↔ true = true ∧ some _ = none
      rw [hnever]
      simp
    · rintro time (heq : b.returned = some time)
      rw [hnever] at heq
      cases heq

/-- Jobs are stopped of workers that were dismissed, and those are once the deadline has come. -/
theorem late_of_seesOff (h : Balances size b) {d : Drain} (hd : b.pool.drain = some d) {q : Pool κ}
    (hs : SeesOff d.deadline b.now b.pool.awaited b.pool q)
    (hp : q.dismissed ≠ [] ∨ b.aborted ++ (b.pool.activeBeside q).map (·.1) ≠ []) :
    b.IsLate b.now := by
  have hbefore (hp : b.pool.dismissed ≠ []) : b.IsLate b.now := h.patient (.inl hp)
  rcases hp with hp | hp
  · rcases hs.dismissed with heq | ⟨hle, -⟩
    · exact hbefore (heq ▸ hp)
    · exact ⟨_, h.drain d hd, hle⟩
  · obtain ⟨k, hk⟩ := List.exists_mem_of_ne_nil _ hp
    rcases List.mem_append.1 hk with hk | hk
    · exact h.patient (.inr (List.ne_nil_of_mem hk))
    · obtain ⟨hactive, hnot⟩ := mem_activeBeside.1 hk
      obtain ⟨i, hi⟩ := hs.stopped k hactive hnot
      exact hbefore (h.sound.left i k hi)

/-- The end of the pool comes when all its jobs are over, or when there is no more time. -/
theorem done_of_seesOff (h : Balances size b) {d : Drain} (hd : b.pool.drain = some d) {q : Pool κ}
    (hs : SeesOff d.deadline b.now b.pool.awaited b.pool q) (hsound : q.Sound)
    (hserves : q.Serves b.accepted) (hq : q.drain = none)
    (hfate : ∀ k < q.started, q.isActive k = true ∨
      k ∈ b.ended.map (·.1) ++ (b.aborted ++ (b.pool.activeBeside q).map (·.1))) :
    (∀ k < b.accepted.length, k ∈ b.ended.map (·.1)) ∨ b.IsLate b.now := by
  by_cases hlate : b.IsLate b.now
  · exact .inr hlate
  · -- Nobody was dismissed and no job stopped, and the queue is done.
    have hdismissed : q.dismissed = [] :=
      Decidable.byContradiction fun hp => hlate (h.late_of_seesOff hd hs (.inl hp))
    have haborted : b.aborted ++ (b.pool.activeBeside q).map (·.1) = [] :=
      Decidable.byContradiction fun hp => hlate (h.late_of_seesOff hd hs (.inr hp))
    have hclosed : q.closed = true := hs.closed.trans (h.sound.drain (by rw [hd]; rfl))
    have hsize : 0 < q.size := by
      rw [hs.size, h.size]
      omega
    obtain ⟨hactive, -, hqueue⟩ := hsound.atEnd hsize hclosed hq
    have hdone : b.accepted.length ≤ q.started :=
      List.drop_eq_nil_iff.1 (hserves.queue ▸ hqueue hdismissed)
    -- So every job that was accepted was started, and came to its own end.
    refine .inl fun k hk => ?_
    rcases hfate k (Nat.lt_of_lt_of_le hk hdone) with hk | hk
    · rw [isActive_iff, hactive] at hk
      cases hk
    · rwa [haborted, List.append_nil] at hk

theorem look (h : Balances size b) : Balances size (b.after .look) := by
  have hserves := (b.pool.proceeds_closing b.now).serves _ h.serves
  rw [after]
  rcases closing_eq_or_seesOff b.pool b.now with ⟨hnone, hsame⟩ | ⟨d, hd, hs⟩
  · -- Nobody is waiting for the end of the pool.
    have hnobody : b.pool.activeBeside b.pool = [] := activeBeside_self _ fun _ => isActive_of_mem
    rw [hsame, hnobody, hnone, List.map_nil, List.append_nil]
    exact h
  · have hclosed : b.pool.closed = true := h.sound.drain (by rw [hd]; rfl)
    have hsound := h.sound.seesOff hs hclosed
    generalize (b.pool.closing b.now).2 = q at hs hserves hsound ⊢
    have hnever : b.returned.isSome = false := Bool.eq_false_iff.2 fun hr => by
      rw [(h.returned.1 hr).2] at hd
      cases hd
    -- What is stopped now was active, so it is not past yet, and comes once.
    have honce : ((b.pool.activeBeside q).map (·.1)).Nodup := by
      have hsub : (b.pool.activeBeside q).Sublist b.pool.active := List.filter_sublist
      exact (h.sound.active.sublist (hsub.map _)).imp fun hlt => Nat.ne_of_lt hlt
    have hperm : (b.ended.map (·.1) ++ (b.aborted ++ (b.pool.activeBeside q).map (·.1))).Perm
        (b.past ++ (b.pool.activeBeside q).map (·.1)) :=
      .of_eq (List.append_assoc ..).symm
    obtain ⟨hfate, hpast, honce⟩ :=
      h.shift hs.started (fun _ => hs.isActive) (fun _ => mem_activeBeside) honce hperm
    constructor
    case size => exact hs.size.trans h.size
    case sound => exact hsound
    case serves => exact hserves
    case room => rw [hs.queue, hs.size]; exact h.room
    case numbers => rw [hs.started]; exact h.numbers
    case jobs => rw [hs.started]; exact h.jobs
    case fate => exact hfate
    case past => exact hpast
    case once => exact honce
    case begun => exact hs.closed.trans h.begun
    case drain =>
      intro d' hd'
      rw [h.drain d hd, hs.drain d' hd']
    case patient => exact h.late_of_seesOff hd hs
    case returned =>
      rw [hd, hs.closed]
      cases hq : q.drain with
      | none => simp [hclosed]
      | some d' => simp [hnever]
    case inTime =>
      intro time hreturned
      cases hq : q.drain with
      | some d' =>
        rw [hq, hd] at hreturned
        rw [show b.returned = some time from hreturned] at hnever
        cases hnever
      | none =>
        rw [hq, hd] at hreturned
        obtain rfl := Option.some.inj hreturned
        exact h.done_of_seesOff hd hs hsound hserves hq hfate

theorem after (h : Balances size b) (e : Event κ) : Balances size (b.after e) := by
  cases e with
  | submit job => exact h.submit job
  | turn i => exact h.turn i
  | finish number failed => exact h.finish number failed
  | pass ms => exact h.pass ms
  | close grace => exact h.close grace
  | look => exact h.look

theorem foldl (h : Balances size b) (events : List (Event κ)) :
    Balances size (events.foldl Book.after b) := by
  induction events generalizing b with
  | nil => exact h
  | cons e events ih => exact ih (h.after e)

theorem size_pos (h : Balances size b) : 0 < b.pool.size := by
  rw [h.size]
  omega

theorem length_taken (h : Balances size b) : b.taken.length = b.pool.started := by
  rw [← List.length_map (·.1), h.numbers, List.length_range]

theorem taken_append_queue (h : Balances size b) :
    b.taken.map (·.2) ++ b.pool.queue = b.accepted := by
  rw [h.jobs, h.serves.queue, List.take_append_drop]

/-- Every job that was started is running, over, or stopped, and only one of these. -/
theorem perm_range (h : Balances size b) :
    (b.pool.active.map (·.1) ++ (b.ended.map (·.1) ++ b.aborted)).Perm
      (List.range b.taken.length) := by
  have hactive : (b.pool.active.map (·.1)).Nodup :=
    h.sound.active.imp fun hlt => Nat.ne_of_lt hlt
  have hnodup : (b.pool.active.map (·.1) ++ b.past).Nodup := by
    refine List.nodup_append.2 ⟨hactive, h.once, ?_⟩
    rintro k hk _ hk' rfl
    have hnot := (h.past k hk').2
    rw [isActive_iff.2 hk] at hnot
    cases hnot
  refine (List.perm_ext_iff_of_nodup hnodup List.nodup_range).2 fun k => ?_
  rw [h.length_taken, List.mem_range, List.mem_append, ← isActive_iff]
  exact ⟨fun hk => hk.elim h.sound.active_lt fun hk => (h.past k hk).1, h.fate k⟩

/-- Once the end of the pool has come, nothing happens to its jobs. -/
theorem after_eq_of_returned (h : Balances size b) (hreturned : b.returned.isSome = true)
    (e : Event κ) : ∃ now, b.after e = { b with now } := by
  obtain ⟨hclosed, hdrain⟩ := h.returned.1 hreturned
  obtain ⟨hactive, hgone, -⟩ := h.sound.atEnd h.size_pos hclosed hdrain
  have hnobody : b.pool.activeBeside b.pool = [] := by
    rw [activeBeside, hactive]
    rfl
  cases e with
  | submit job => exact ⟨b.now, by rw [Book.after, Pool.submit, if_pos hclosed]⟩
  | turn i =>
    obtain ⟨left, hi⟩ := Worker.isGone_iff.1 (hgone i)
    have hturn : b.pool.turn i = ([], b.pool) := by rw [Pool.turn, hi]
    exact ⟨b.now, by rw [Book.after, hturn, hnobody, List.append_nil]⟩
  | finish number failed =>
    have hover : b.pool.isActive number = false := by
      rw [isActive, hactive]
      rfl
    exact ⟨b.now, by rw [Book.after, hover]; rfl⟩
  | pass ms => exact ⟨_, rfl⟩
  | close grace => exact ⟨b.now, by rw [Book.after, if_pos hclosed]⟩
  | look =>
    have hsame : b.pool.closing b.now = ([], b.pool) := by rw [closing, hdrain]
    refine ⟨b.now, ?_⟩
    rw [Book.after, hsame, hnobody, hdrain, List.map_nil, List.append_nil]
    rfl

theorem foldl_eq_of_returned (h : Balances size b) (hreturned : b.returned.isSome = true)
    (events : List (Event κ)) : ∃ now, events.foldl Book.after b = { b with now } := by
  induction events generalizing b with
  | nil => exact ⟨b.now, rfl⟩
  | cons e events ih =>
    obtain ⟨now, hnow⟩ := h.after_eq_of_returned hreturned e
    have hnext := h.after e
    rw [hnow] at hnext
    obtain ⟨now', hnow'⟩ := ih hnext hreturned
    exact ⟨now', by rw [List.foldl_cons, hnow, hnow']⟩

end Balances

theorem balances_ofEvents (size : Nat) (events : List (Event κ)) :
    Balances size (ofEvents size events) :=
  (balances_new size).foldl events

namespace Balances

variable {size : Nat} {b : Book κ}

theorem submit_eq_error_iff (h : Balances size b) (job : κ) :
    (b.pool.submit job = .error .full ↔
        b.deadline = none ∧ b.pool.queue.length = queueDepth * max size 1) ∧
      (b.pool.submit job = .error .shutDown ↔ b.deadline.isSome = true) := by
  have hroom := h.room
  have hbegun := h.begun
  rw [h.size] at hroom
  rw [Pool.submit, h.size]
  cases hdeadline : b.deadline with
  | some d =>
    have hclosed : b.pool.closed = true := by rw [hbegun, hdeadline]; rfl
    rw [if_pos hclosed]
    simp
  | none =>
    have hopen : ¬b.pool.closed = true := by rw [hbegun, hdeadline]; exact nofun
    rw [if_neg hopen]
    split
    · next hfull => simp [Nat.le_antisymm hroom hfull]
    · next hfull => simp [Nat.ne_of_lt (Nat.lt_of_not_le hfull)]

/-- Before the deadline no job is stopped, workers only leave once there is nothing left to do, and
jobs only wait while all workers are at work. -/
theorem early (h : Balances size b) (hearly : ¬b.IsLate b.now) :
    b.aborted = [] ∧
      (∀ i < max size 1, (b.pool.worker i).isGone = true →
        b.deadline.isSome = true ∧ b.pool.queue = []) ∧
      ((∀ i, (b.pool.turn i).2 = b.pool) →
        b.pool.queue = [] ∨ b.pool.active.length = max size 1) := by
  have hnobody : b.pool.dismissed = [] :=
    Decidable.byContradiction fun hp => hearly (h.patient (.inl hp))
  have hgone (i : Nat) (hi : i < b.pool.size) (hgone : (b.pool.worker i).isGone = true) :
      b.deadline.isSome = true ∧ b.pool.queue = [] := by
    obtain ⟨hclosed, hwhy⟩ := h.sound.gone i hi hgone
    exact ⟨h.begun ▸ hclosed, hwhy.resolve_right (absurd hnobody)⟩
  rw [← h.size]
  refine ⟨Decidable.byContradiction fun hp => hearly (h.patient (.inr hp)), hgone,
    fun hsettled => ?_⟩
  by_cases hqueue : b.pool.queue = []
  · exact .inl hqueue
  · have hthere (i : Nat) (hi : i < b.pool.size) : (b.pool.worker i).isGone = false :=
      Bool.eq_false_iff.2 fun hleft => hqueue (hgone i hi hleft).2
    -- Nobody left while there are jobs in the queue.
    have hbusy := h.sound.busy_of_settled hsettled hthere hqueue
    exact .inr (Nat.le_antisymm h.sound.length_active_le (h.sound.size_le_of_busy hbusy))

end Balances

end Book

/-- **Whatever happens to a pool, its jobs are accounted for.** No more than there are workers run at a
time, and no more than there are places wait. Jobs are started in the order in which they were
accepted, each of them once, and whatever was started is running, over, or stopped. A job that is not
accepted finds the queue full, or the pool shut down. Until the deadline no job is stopped and no
worker lost, whether jobs fail or not. Before the deadline, the end of the pool comes when all jobs
are over; and when it has come, nothing runs, and nothing happens to the jobs any more. -/
theorem jobs_accounted_for (size : Nat) (events : List (Event κ)) :
    let b := Book.ofEvents size events
    let n := max size 1
    (b.pool.active.length ≤ n ∧ b.pool.queue.length ≤ 64 * n) ∧
      (b.taken.map (·.1) = List.range b.taken.length ∧
        b.taken.map (·.2) ++ b.pool.queue = b.accepted ∧
        (b.pool.active.map (·.1) ++ (b.ended.map (·.1) ++ b.aborted)).Perm
          (List.range b.taken.length)) ∧
      (∀ job,
        (b.pool.submit job = .error .full ↔
          b.deadline = none ∧ b.pool.queue.length = 64 * n) ∧
        (b.pool.submit job = .error .shutDown ↔ b.deadline.isSome = true)) ∧
      (¬b.IsLate b.now →
        b.aborted = [] ∧
        (∀ i < n, (b.pool.worker i).isGone = true →
          b.deadline.isSome = true ∧ b.pool.queue = []) ∧
        ((∀ i, (b.pool.turn i).2 = b.pool) →
          b.pool.queue = [] ∨ b.pool.active.length = n)) ∧
      (∀ time, b.returned = some time →
        (∀ number < b.accepted.length, number ∈ b.ended.map (·.1)) ∨ b.IsLate time) ∧
      (b.returned.isSome = true →
        b.pool.active = [] ∧
        ∀ more, ∃ now, Book.ofEvents size (events ++ more) = { b with now }) := by
  intro b n
  have h : Book.Balances size b := Book.balances_ofEvents size events
  have hrunning := h.sound.length_active_le
  have hwaiting := h.room
  rw [h.size] at hrunning hwaiting
  refine ⟨⟨hrunning, hwaiting⟩, ⟨?_, h.taken_append_queue, h.perm_range⟩, h.submit_eq_error_iff,
    h.early, h.inTime, fun hreturned => ⟨?_, fun more => ?_⟩⟩
  · rw [h.length_taken]
    exact h.numbers
  · obtain ⟨hclosed, hdrain⟩ := h.returned.1 hreturned
    exact (h.sound.atEnd h.size_pos hclosed hdrain).1
  · rw [Book.ofEvents, List.foldl_append]
    exact h.foldl_eq_of_returned hreturned more

/-- A worker whose job fails takes the next one, which is stopped when there is no more time. -/
example :
    let b := Book.ofEvents 1 [.submit 'a', .submit 'b', .turn 0, .finish 0 true, .turn 0, .close 5,
      .pass 5, .look, .turn 0, .look]
    b.ended = [(0, true)] ∧ b.aborted = [1] ∧ b.returned = some 5 := by
  decide

end Uplink.Pool
