import Uplink.Pool.Basic
import Mathlib.Data.List.Nodup
import Mathlib.Data.List.Perm.Subperm
import Mathlib.Data.List.Range

/-!
# Workers and the jobs that they hold

Every job that is active is held by a worker, and no two workers hold the same one. Workers stay until
there is nothing left to do or they are told to leave; with a job they only leave when they are told
to. Who waits for the end of the pool sees off one after the other, and with the last of them the last
job.
-/

namespace Uplink

namespace Worker

def job : Worker → Option Nat
  | busy number => some number
  | gone left => left
  | _ => none

def isGone : Worker → Bool
  | gone _ => true
  | _ => false

theorem isGone_iff {w : Worker} : w.isGone = true ↔ ∃ left, w = .gone left := by
  cases w <;> simp [isGone]

end Worker

namespace Pool

variable {κ : Type}

/-! ## 1. What holds of workers at all times -/

theorem isActive_iff {p : Pool κ} {k : Nat} : p.isActive k = true ↔ k ∈ p.active.map (·.1) := by
  rw [isActive, List.any_eq_true, List.mem_map]
  simp only [beq_iff_eq]

theorem isActive_of_mem {p : Pool κ} {job : Nat × κ} (h : job ∈ p.active) :
    p.isActive job.1 = true :=
  isActive_iff.2 (List.mem_map_of_mem h)

theorem isActive_stop_iff {p : Pool κ} {number k : Nat} :
    (p.stop number).isActive k = true ↔ p.isActive k = true ∧ k ≠ number := by
  rw [isActive, isActive, stop, List.any_eq_true, List.any_eq_true]
  constructor
  · rintro ⟨job, hjob, hk⟩
    obtain ⟨hjob, hne⟩ := List.mem_filter.1 hjob
    obtain rfl := eq_of_beq hk
    exact ⟨⟨job, hjob, hk⟩, by simpa using hne⟩
  · rintro ⟨⟨job, hjob, hk⟩, hne⟩
    obtain rfl := eq_of_beq hk
    exact ⟨job, List.mem_filter.2 ⟨hjob, by simpa using hne⟩, hk⟩

theorem worker_setWorker_self {p : Pool κ} {i : Nat} (h : i < p.size) (w : Worker) :
    (p.setWorker i w).worker i = w := by
  rw [worker, setWorker, List.getD_eq_getElem?_getD, List.getElem?_set_self h]
  rfl

theorem worker_setWorker_of_ne {p : Pool κ} {i j : Nat} (h : j ≠ i) (w : Worker) :
    (p.setWorker i w).worker j = p.worker j := by
  rw [worker, worker, setWorker, List.getD_eq_getElem?_getD, List.getElem?_set_ne h.symm,
    List.getD_eq_getElem?_getD]

/-- Nobody but the workers of a pool is in line, at work or holds a job. -/
theorem lt_size_of_worker {p : Pool κ} {i : Nat} (h : p.worker i ≠ .gone none) : i < p.size := by
  refine Decidable.byContradiction fun hle => h ?_
  rw [worker, List.getD_eq_getElem?_getD, List.getElem?_eq_none (Nat.le_of_not_lt hle)]
  rfl

theorem lt_size_of_job {p : Pool κ} {i k : Nat} (h : (p.worker i).job = some k) : i < p.size := by
  refine lt_size_of_worker fun hgone => ?_
  rw [hgone] at h
  cases h

/-- The workers whose leaving is still to be waited for. -/
def awaited (p : Pool κ) : List Nat := p.drain.elim [] (·.workers)

/-- A worker left, and no job of it is active. -/
structure SeenOff (p : Pool κ) (i : Nat) : Prop where
  isGone : (p.worker i).isGone = true
  idle : ∀ k, (p.worker i).job = some k → p.isActive k = false

/-- What holds of the workers of a pool at all times. -/
structure Sound (p : Pool κ) : Prop where
  line : ∀ i, i ∈ p.line ↔ p.worker i = .inLine
  held : ∀ k, p.isActive k = true → ∃ i, (p.worker i).job = some k
  job_lt : ∀ i k, (p.worker i).job = some k → k < p.started
  job_inj : ∀ i j k, (p.worker i).job = some k → (p.worker j).job = some k → i = j
  active : (p.active.map (·.1)).Pairwise (· < ·)
  /-- Workers leave when there is nothing left to do, or when they are told to. -/
  gone : ∀ i < p.size, (p.worker i).isGone = true →
    p.closed = true ∧ (p.queue = [] ∨ p.dismissed ≠ [])
  left : ∀ i k, p.worker i = .gone (some k) → p.dismissed ≠ []
  dismissed : p.dismissed ≠ [] → p.closed = true
  drain : p.drain.isSome = true → p.closed = true
  seenOff : p.closed = true → ∀ i < p.size, i ∈ p.awaited ∨ p.SeenOff i

theorem worker_ofSize (size i : Nat) :
    (ofSize size : Pool κ).worker i = if i < max size 1 then .free else .gone none := by
  rw [worker, ofSize, List.getD_eq_getElem?_getD, List.getElem?_replicate]
  split <;> rfl

theorem size_ofSize (size : Nat) : (ofSize size : Pool κ).size = max size 1 :=
  List.length_replicate

theorem sound_ofSize (size : Nat) : (ofSize size : Pool κ).Sound := by
  have hjob (i k : Nat) : ((ofSize size : Pool κ).worker i).job ≠ some k := by
    rw [worker_ofSize]
    split <;> exact nofun
  refine ⟨fun i => ⟨nofun, fun h => ?_⟩, nofun, fun i k h => absurd h (hjob i k),
    fun i j k h => absurd h (hjob i k), .nil, fun i hi h => ?_, fun i k h => ?_,
    fun h => absurd rfl h, nofun, nofun⟩
  · rw [worker_ofSize] at h
    split at h <;> cases h
  · rw [size_ofSize] at hi
    rw [worker_ofSize, if_pos hi] at h
    cases h
  · exact absurd (by rw [h]; rfl) (hjob i k)

theorem Sound.active_lt {p : Pool κ} (h : p.Sound) {k : Nat} (hk : p.isActive k = true) :
    k < p.started := by
  obtain ⟨i, hi⟩ := h.held k hk
  exact h.job_lt i k hi

/-! ## 2. A worker moves -/

/-- One worker moves. It keeps the job that it held, lets go of one that is over, or starts one. -/
structure Moves (i : Nat) (p q : Pool κ) : Prop where
  there : (p.worker i).isGone = false
  others : ∀ j ≠ i, q.worker j = p.worker j
  size : q.size = p.size
  line : ∀ j, j ∈ q.line ↔ if j = i then q.worker i = .inLine else j ∈ p.line
  job : ∀ k, (q.worker i).job = some k →
    (p.worker i).job = some k ∨ k = p.started ∧ p.started < q.started
  started : p.started ≤ q.started
  active : ∀ k, q.isActive k = true →
    (q.worker i).job = some k ∨ p.isActive k = true ∧ (p.worker i).job ≠ some k
  ascending : (p.active.map (·.1)).Pairwise (· < ·) → (∀ k, p.isActive k = true → k < p.started) →
    (q.active.map (·.1)).Pairwise (· < ·)
  queue : p.queue = [] → q.queue = []
  gone : (q.worker i).isGone = true → q.closed = true ∧ (q.queue = [] ∨ q.dismissed ≠ [])
  left : ∀ k, q.worker i = .gone (some k) → q.dismissed ≠ []
  closed : q.closed = p.closed
  dismissed : q.dismissed = p.dismissed
  drain : q.drain = p.drain

/-- A job that was not just started was held by the same worker before. -/
theorem Moves.job_cases {p q : Pool κ} {i j k : Nat} (hm : Moves i p q)
    (hj : (q.worker j).job = some k) :
    j = i ∧ k = p.started ∧ p.started < q.started ∨ (p.worker j).job = some k := by
  by_cases hji : j = i
  · subst hji
    rcases hm.job k hj with hbefore | hnew
    · exact .inr hbefore
    · exact .inl ⟨rfl, hnew⟩
  · rw [hm.others j hji] at hj
    exact .inr hj

/-- Who was seen off stays so while another worker moves. -/
theorem Sound.seenOff_move {p q : Pool κ} {i j : Nat} (h : p.Sound) (hm : Moves i p q)
    (hseen : p.SeenOff j) : q.SeenOff j := by
  -- Who has been seen off is not the one who moves.
  have hji : j ≠ i := by
    rintro rfl
    have hgone := hseen.isGone
    rw [hm.there] at hgone
    cases hgone
  refine ⟨by rw [hm.others j hji]; exact hseen.isGone, fun k hk => ?_⟩
  rw [hm.others j hji] at hk
  have hover := hseen.idle k hk
  refine Bool.eq_false_iff.2 fun hactive => ?_
  rcases hm.active k hactive with hown | ⟨hbefore, -⟩
  · rcases hm.job_cases hown with ⟨-, rfl, -⟩ | hbefore
    · exact absurd (h.job_lt j _ hk) (Nat.lt_irrefl _)
    · exact hji (h.job_inj j i k hk hbefore)
  · rw [hover] at hbefore
    cases hbefore

theorem Sound.move {p q : Pool κ} {i : Nat} (h : p.Sound) (hm : Moves i p q) : q.Sound := by
  constructor
  case line =>
    intro j
    rw [hm.line]
    by_cases hji : j = i
    · rw [if_pos hji, hji]
    · rw [if_neg hji, hm.others j hji, h.line]
  case held =>
    intro k hk
    rcases hm.active k hk with hown | ⟨hactive, hother⟩
    · exact ⟨i, hown⟩
    · obtain ⟨j, hj⟩ := h.held k hactive
      have hji : j ≠ i := by
        rintro rfl
        exact hother hj
      exact ⟨j, by rwa [hm.others j hji]⟩
  case job_lt =>
    intro j k hj
    -- A job that was just started has the number that was next until then.
    rcases hm.job_cases hj with ⟨-, rfl, hlt⟩ | hbefore
    · exact hlt
    · exact Nat.lt_of_lt_of_le (h.job_lt j k hbefore) hm.started
  case job_inj =>
    intro j j' k hj hj'
    -- That number was nobody's before, so no other worker holds it.
    rcases hm.job_cases hj with ⟨rfl, rfl, -⟩ | hbefore
    · rcases hm.job_cases hj' with ⟨rfl, -⟩ | hbefore'
      · rfl
      · exact absurd (h.job_lt j' _ hbefore') (Nat.lt_irrefl _)
    · rcases hm.job_cases hj' with ⟨rfl, rfl, -⟩ | hbefore'
      · exact absurd (h.job_lt j _ hbefore) (Nat.lt_irrefl _)
      · exact h.job_inj j j' k hbefore hbefore'
  case active => exact hm.ascending h.active fun k => h.active_lt
  case gone =>
    intro j hj hgone
    by_cases hji : j = i
    · exact hm.gone (hji ▸ hgone)
    · rw [hm.others j hji] at hgone
      obtain ⟨hclosed, hwhy⟩ := h.gone j (hm.size ▸ hj) hgone
      rw [hm.closed, hm.dismissed]
      exact ⟨hclosed, hwhy.imp_left hm.queue⟩
  case left =>
    intro j k hj
    by_cases hji : j = i
    · exact hm.left k (hji ▸ hj)
    · rw [hm.others j hji] at hj
      rw [hm.dismissed]
      exact h.left j k hj
  case dismissed => rw [hm.dismissed, hm.closed]; exact h.dismissed
  case drain => rw [hm.drain, hm.closed]; exact h.drain
  case seenOff =>
    intro hclosed j hj
    rw [awaited, hm.drain]
    exact (h.seenOff (hm.closed ▸ hclosed) j (hm.size ▸ hj)).imp_right (h.seenOff_move hm)

section Moves

variable {p : Pool κ} {i : Nat}

theorem mem_filter_line {w : Worker} (hw : w ≠ .inLine) (j : Nat) :
    j ∈ p.line.filter (· != i) ↔ if j = i then w = .inLine else j ∈ p.line := by
  rw [List.mem_filter, bne_iff_ne]
  by_cases hji : j = i
  · simp [hji, hw]
  · simp [hji]

/-- A worker takes another place, in line or outside of it. -/
theorem moves_setWorker {w : Worker} {line : List Nat} (hi : (p.worker i).isGone = false)
    (hline : ∀ j, j ∈ line ↔ if j = i then w = .inLine else j ∈ p.line)
    (hjob : ∀ k, w.job = some k → (p.worker i).job = some k)
    (hover : ∀ k, (p.worker i).job = some k → p.isActive k = true → w.job = some k)
    (hgone : w.isGone = true → p.closed = true ∧ (p.queue = [] ∨ p.dismissed ≠ []))
    (hleft : ∀ k, w = .gone (some k) → p.dismissed ≠ []) :
    Moves i p ({ p with line }.setWorker i w) := by
  have hlt : i < p.size := lt_size_of_worker fun hgone => by rw [hgone] at hi; cases hi
  have hself : ({ p with line }.setWorker i w).worker i = w := worker_setWorker_self hlt w
  refine ⟨hi, fun j hj => worker_setWorker_of_ne hj w, size_setWorker .., ?_, ?_, Nat.le_refl _, ?_,
    fun h _ => h, id, ?_, ?_, rfl, rfl, rfl⟩
  all_goals rw [hself]
  · exact hline
  · exact fun k hk => .inl (hjob k hk)
  · intro k hk
    by_cases hown : (p.worker i).job = some k
    · exact .inl (hover k hown hk)
    · exact .inr ⟨hk, hown⟩
  · exact hgone
  · exact hleft

theorem moves_lineUp (hi : (p.worker i).isGone = false)
    (hover : ∀ k, (p.worker i).job = some k → p.isActive k = false) :
    Moves i p ({ p with line := p.line ++ [i] }.setWorker i .inLine) := by
  refine moves_setWorker hi (fun j => ?_) nofun (fun k hk hactive => ?_) nofun nofun
  · rw [List.mem_append, List.mem_singleton]
    by_cases hji : j = i
    · simp [hji]
    · simp [hji]
  · rw [hover k hk] at hactive
    cases hactive

theorem moves_leave {left : Option Nat} (hi : (p.worker i).isGone = false)
    (hjob : (p.worker i).job = left)
    (hwhy : p.closed = true ∧ (p.queue = [] ∨ p.dismissed ≠ []))
    (hleft : ∀ k, left = some k → p.dismissed ≠ []) : Moves i p (p.leave i left).2 :=
  moves_setWorker hi (mem_filter_line nofun) (fun _ hk => hjob.trans hk) (fun _ hk _ => hjob ▸ hk)
    (fun _ => hwhy) fun k hk => hleft k (Worker.gone.inj hk)

/-- The worker that is first in line takes the first job of the queue. -/
theorem moves_start (hi : p.worker i = .inLine) {job : κ} {queue : List κ}
    (hqueue : p.queue = job :: queue) :
    Moves i p ({ p with
      line := p.line.filter (· != i)
      queue
      active := p.active ++ [(p.started, job)]
      started := p.started + 1 }.setWorker i (.busy p.started)) := by
  have hlt : i < p.size := lt_size_of_worker (by rw [hi]; exact nofun)
  set q : Pool κ := { p with
    line := p.line.filter (· != i)
    queue
    active := p.active ++ [(p.started, job)]
    started := p.started + 1 }
  have hself : (q.setWorker i (.busy p.started)).worker i = .busy p.started :=
    worker_setWorker_self (p := q) hlt _
  have hactive : (q.setWorker i (.busy p.started)).active = p.active ++ [(p.started, job)] := rfl
  refine ⟨by rw [hi]; rfl, fun j hj => worker_setWorker_of_ne (p := q) hj _, size_setWorker ..,
    ?_, ?_, Nat.le_succ _, fun k hk => ?_, fun hascending hbefore => ?_, ?_, ?_, ?_, rfl, rfl, rfl⟩
  · rw [hself]
    exact mem_filter_line nofun
  · rw [hself]
    rintro k ⟨⟩
    exact .inr ⟨rfl, Nat.lt_succ_self _⟩
  · rw [hself, hi]
    rw [isActive_iff, hactive, List.map_append, List.mem_append, ← isActive_iff] at hk
    rcases hk with hk | hk
    · exact .inr ⟨hk, nofun⟩
    · rw [List.map_singleton, List.mem_singleton] at hk
      exact .inl (congrArg some hk.symm)
  · -- The number of the new job is above all others.
    rw [hactive, List.map_append, List.pairwise_append]
    refine ⟨hascending, List.pairwise_singleton .., fun k hk k' hk' => ?_⟩
    obtain rfl := List.mem_singleton.1 hk'
    exact hbefore k (isActive_iff.2 hk)
  · rw [hqueue]
    exact nofun
  · rw [hself]
    exact nofun
  · rw [hself]
    exact nofun

end Moves

theorem Sound.take {p : Pool κ} (h : p.Sound) (i : Nat) : (p.take i).2.Sound := by
  rw [Pool.take]
  split
  · next hfirst =>
    have hi : p.worker i = .inLine := (h.line i).1 (List.mem_of_mem_head? hfirst)
    split
    · next job queue hqueue => exact h.move (moves_start hi hqueue)
    · next hqueue =>
      split
      · next hclosed =>
        exact h.move (moves_leave (by rw [hi]; rfl) (by rw [hi]; rfl) ⟨hclosed, .inl hqueue⟩ nofun)
      · exact h
  · exact h

theorem Sound.turn {p : Pool κ} (h : p.Sound) (i : Nat) : (p.turn i).2.Sound := by
  -- A worker that is dismissed leaves, with the job that it holds.
  have hdismissed (hi : i ∈ p.dismissed) (hthere : (p.worker i).isGone = false) {left : Option Nat}
      (hjob : (p.worker i).job = left) : (p.leave i left).2.Sound := by
    have hsome : p.dismissed ≠ [] := List.ne_nil_of_mem hi
    exact h.move (moves_leave hthere hjob ⟨h.dismissed hsome, .inr hsome⟩ fun _ _ => hsome)
  have hline (hthere : (p.worker i).isGone = false)
      (hover : ∀ k, (p.worker i).job = some k → p.isActive k = false) :
      (({ p with line := p.line ++ [i] }.setWorker i .inLine).take i).2.Sound :=
    (h.move (moves_lineUp hthere hover)).take i
  rw [Pool.turn]
  split
  · exact h
  · next hw =>
    split
    · next hi => exact hdismissed hi (by rw [hw]; rfl) (by rw [hw]; rfl)
    · exact hline (by rw [hw]; rfl) (by rw [hw]; exact nofun)
  · next hw =>
    split
    · next hi => exact hdismissed hi (by rw [hw]; rfl) (by rw [hw]; rfl)
    · exact h.take i
  · next job hw =>
    split
    · next hi => exact hdismissed hi (by rw [hw]; rfl) (by rw [hw]; rfl)
    · split
      · exact h
      · next hover =>
        refine hline (by rw [hw]; rfl) ?_
        rw [hw]
        rintro k ⟨⟩
        exact Bool.eq_false_iff.2 hover

theorem Sound.stop {p : Pool κ} (h : p.Sound) (number : Nat) : (p.stop number).Sound := by
  have hactive (k : Nat) (hk : (p.stop number).isActive k = true) : p.isActive k = true :=
    (isActive_stop_iff.1 hk).1
  refine ⟨h.line, fun k hk => h.held k (hactive k hk), h.job_lt, h.job_inj,
    h.active.sublist (List.filter_sublist.map _), h.gone, h.left, h.dismissed, h.drain,
    fun hclosed i hi => (h.seenOff hclosed i hi).imp_right fun hseen => ⟨hseen.isGone, ?_⟩⟩
  intro k hk
  refine Bool.eq_false_iff.2 fun hstill => ?_
  have hbefore := hactive k hstill
  rw [hseen.idle k hk] at hbefore
  cases hbefore

theorem Sound.close {p : Pool κ} (h : p.Sound) (hopen : p.closed = false) (deadline : Nat) :
    (p.close deadline).2.Sound := by
  have hthere (i : Nat) (hi : i < p.size) : (p.worker i).isGone ≠ true := by
    intro hgone
    rw [(h.gone i hi hgone).1] at hopen
    cases hopen
  exact ⟨h.line, h.held, h.job_lt, h.job_inj, h.active, fun i hi hgone => absurd hgone (hthere i hi),
    h.left, fun _ => rfl, fun _ => rfl, fun _ i hi => .inl (List.mem_range.2 hi)⟩

theorem Sound.enqueue {p : Pool κ} (h : p.Sound) (hopen : p.closed = false) (queue : List κ) :
    { p with queue }.Sound := by
  refine ⟨h.line, h.held, h.job_lt, h.job_inj, h.active, fun i hi hgone => ?_, h.left, h.dismissed,
    h.drain, fun hclosed i hi =>
      (h.seenOff hclosed i hi).imp_right fun hseen => ⟨hseen.isGone, hseen.idle⟩⟩
  have hclosed := (h.gone i hi hgone).1
  rw [hopen] at hclosed
  cases hclosed

/-! ## 3. Seeing workers off -/

/-- Workers that left are seen off, and their jobs stopped. Nobody is dismissed before the deadline. -/
structure SeesOff (deadline now : Nat) (workers : List Nat) (p q : Pool κ) : Prop where
  workers_eq : q.workers = p.workers
  line : q.line = p.line
  queue : q.queue = p.queue
  started : q.started = p.started
  closed : q.closed = p.closed
  active : q.active.Sublist p.active
  stopped : ∀ k, p.isActive k = true → q.isActive k = false → ∃ i, p.worker i = .gone (some k)
  dismissed : q.dismissed = p.dismissed ∨ deadline ≤ now ∧ q.dismissed ≠ []
  drain : ∀ d, q.drain = some d → d.deadline = deadline
  awaited : ∀ i ∈ workers, i ∈ q.awaited ∨ q.SeenOff i

namespace SeesOff

variable {deadline now : Nat} {workers : List Nat} {p q : Pool κ}

theorem worker (h : SeesOff deadline now workers p q) (i : Nat) : q.worker i = p.worker i := by
  rw [Pool.worker, Pool.worker, h.workers_eq]

theorem size (h : SeesOff deadline now workers p q) : q.size = p.size := by
  rw [Pool.size, Pool.size, h.workers_eq]

theorem isActive (h : SeesOff deadline now workers p q) {k : Nat} (hk : q.isActive k = true) :
    p.isActive k = true :=
  isActive_iff.2 ((h.active.map _).subset (isActive_iff.1 hk))

/-- The first worker left: its job is stopped before the others are looked at. -/
theorem cons_of_gone {i : Nat} {left : Option Nat} (hi : p.worker i = .gone left)
    (h : SeesOff deadline now workers (left.elim p p.stop) q) :
    SeesOff deadline now (i :: workers) p q := by
  have hrest : (left.elim p p.stop).workers = p.workers := by cases left <;> rfl
  have hworker (j : Nat) : (left.elim p p.stop).worker j = p.worker j := by
    rw [Pool.worker, Pool.worker, hrest]
  refine ⟨h.workers_eq.trans hrest, ?_, ?_, ?_, ?_, ?_, fun k hk hk' => ?_, ?_, h.drain,
    fun j hj => ?_⟩
  · rw [h.line]; cases left <;> rfl
  · rw [h.queue]; cases left <;> rfl
  · rw [h.started]; cases left <;> rfl
  · rw [h.closed]; cases left <;> rfl
  · refine h.active.trans ?_
    cases left with
    | none => exact .refl _
    | some number => exact List.filter_sublist
  · -- A job is stopped now, because it is that of the first worker, or later.
    cases hmid : (left.elim p p.stop).isActive k with
    | true =>
      obtain ⟨j, hj⟩ := h.stopped k hmid hk'
      exact ⟨j, (hworker j).symm.trans hj⟩
    | false =>
      cases left with
      | none => exact absurd (hk.symm.trans hmid) nofun
      | some number =>
        have hkn : k = number := Decidable.byContradiction fun hne =>
          Bool.eq_false_iff.1 hmid (isActive_stop_iff.2 ⟨hk, hne⟩)
        exact ⟨i, by rw [hi, hkn]⟩
  · have hsame : (left.elim p p.stop).dismissed = p.dismissed := by cases left <;> rfl
    rw [← hsame]
    exact h.dismissed
  · rcases List.mem_cons.1 hj with rfl | hj
    · refine .inr ⟨by rw [h.worker, hworker, hi]; rfl, fun k hk => ?_⟩
      rw [h.worker, hworker, hi] at hk
      obtain rfl : left = some k := hk
      exact Bool.eq_false_iff.2 fun hactive => (isActive_stop_iff.1 (h.isActive hactive)).2 rfl
    · exact h.awaited j hj

theorem seeOff (deadline now : Nat) (workers : List Nat) (p : Pool κ) :
    SeesOff deadline now workers p (Pool.seeOff deadline now workers p).2 := by
  have hnone (p : Pool κ) {q : Pool κ} (hq : q.active = p.active) (k : Nat)
      (hk : p.isActive k = true) (hk' : q.isActive k = false) :
      ∃ i, p.worker i = .gone (some k) := by
    rw [Pool.isActive, hq] at hk'
    exact absurd (hk.symm.trans hk') nofun
  induction workers generalizing p with
  | nil =>
    exact ⟨rfl, rfl, rfl, rfl, rfl, .refl _, hnone p rfl, .inl rfl, nofun, nofun⟩
  | cons i rest ih =>
    rw [Pool.seeOff]
    split
    · next left hi => exact cons_of_gone hi (ih _)
    · dsimp only
      split
      · next hle =>
        exact ⟨rfl, rfl, rfl, rfl, rfl, .refl _, hnone p rfl, .inr ⟨hle, by simp⟩,
          by rintro _ ⟨⟩; rfl, fun _ hj => .inl hj⟩
      · exact ⟨rfl, rfl, rfl, rfl, rfl, .refl _, hnone p rfl, .inl rfl, by rintro _ ⟨⟩; rfl,
          fun _ hj => .inl hj⟩

end SeesOff

theorem Sound.seesOff {p q : Pool κ} {deadline now : Nat} (h : p.Sound)
    (hs : SeesOff deadline now p.awaited p q) (hclosed : p.closed = true) : q.Sound := by
  have hsome (hp : p.dismissed ≠ []) : q.dismissed ≠ [] := by
    rcases hs.dismissed with hsame | ⟨-, hsome⟩
    · rwa [hsame]
    · exact hsome
  -- No worker moves while others are seen off: only jobs are stopped.
  constructor
  case line => intro i; rw [hs.line, hs.worker]; exact h.line i
  case held => intro k hk; simp only [hs.worker]; exact h.held k (hs.isActive hk)
  case job_lt => intro i k hi; rw [hs.worker] at hi; rw [hs.started]; exact h.job_lt i k hi
  case job_inj => simp only [hs.worker]; exact h.job_inj
  case active => exact h.active.sublist (hs.active.map _)
  case gone =>
    intro i hi hgone
    rw [hs.worker] at hgone
    rw [hs.closed, hs.queue]
    exact (h.gone i (hs.size ▸ hi) hgone).imp_right (·.imp_right hsome)
  case left => intro i k hi; rw [hs.worker] at hi; exact hsome (h.left i k hi)
  case dismissed => intro _; rwa [hs.closed]
  case drain => intro _; rwa [hs.closed]
  case seenOff =>
    intro _ i hi
    rcases h.seenOff hclosed i (hs.size ▸ hi) with hawaited | hseen
    · exact hs.awaited i hawaited
    · refine .inr ⟨by rw [hs.worker]; exact hseen.isGone, fun k hk => ?_⟩
      rw [hs.worker] at hk
      refine Bool.eq_false_iff.2 fun hactive => ?_
      have hbefore := hs.isActive hactive
      rw [hseen.idle k hk] at hbefore
      cases hbefore

theorem closing_eq_or_seesOff (p : Pool κ) (now : Nat) :
    p.drain = none ∧ (p.closing now).2 = p ∨
      ∃ d, p.drain = some d ∧ SeesOff d.deadline now p.awaited p (p.closing now).2 := by
  rw [closing]
  cases hdrain : p.drain with
  | none => exact .inl ⟨rfl, rfl⟩
  | some d =>
    refine .inr ⟨d, rfl, ?_⟩
    rw [awaited, hdrain]
    exact .seeOff ..

/-- Once all workers have been seen off, no job is active, and the queue is done unless the pool ran
out of time. -/
theorem Sound.atEnd {p : Pool κ} (h : p.Sound) (hsize : 0 < p.size) (hclosed : p.closed = true)
    (hdrain : p.drain = none) :
    p.active = [] ∧ (∀ i, (p.worker i).isGone = true) ∧ (p.dismissed = [] → p.queue = []) := by
  have hseen (i : Nat) (hi : i < p.size) : p.SeenOff i := by
    refine (h.seenOff hclosed i hi).resolve_left fun hawaited => ?_
    rw [awaited, hdrain] at hawaited
    cases hawaited
  have hnone (k : Nat) : p.isActive k = false := by
    refine Bool.eq_false_iff.2 fun hk => ?_
    obtain ⟨i, hi⟩ := h.held k hk
    rw [(hseen i (lt_size_of_job hi)).idle k hi] at hk
    cases hk
  refine ⟨List.eq_nil_iff_forall_not_mem.2 fun job hjob => ?_, fun i => ?_, fun hdismissed => ?_⟩
  · have hk := isActive_of_mem hjob
    rw [hnone] at hk
    cases hk
  · by_cases hi : i < p.size
    · exact (hseen i hi).isGone
    · rw [Decidable.not_imp_comm.1 lt_size_of_worker hi]
      rfl
  · exact (h.gone 0 hsize (hseen 0 hsize).isGone).2.resolve_right (absurd hdismissed)

/-! ## 4. How many jobs run -/

theorem Sound.length_active_le {p : Pool κ} (h : p.Sound) : p.active.length ≤ p.size := by
  have hnodup : (p.active.map (·.1)).Nodup := h.active.imp fun hlt => Nat.ne_of_lt hlt
  -- Numbers of jobs are told apart, and each is that of some worker.
  have hsub : p.active.map (·.1) ⊆ (List.range p.size).filterMap fun i => (p.worker i).job := by
    intro k hk
    obtain ⟨i, hi⟩ := h.held k (isActive_iff.2 hk)
    exact List.mem_filterMap.2 ⟨i, List.mem_range.2 (lt_size_of_job hi), hi⟩
  have hle := (List.subperm_of_subset hnodup hsub).length_le
  have hjobs := List.length_filterMap_le (fun i => (p.worker i).job) (List.range p.size)
  rw [List.length_map] at hle
  rw [List.length_range] at hjobs
  exact Nat.le_trans hle hjobs

theorem Sound.size_le_of_busy {p : Pool κ} (h : p.Sound)
    (hbusy : ∀ i < p.size, ∃ k, (p.worker i).job = some k ∧ p.isActive k = true) :
    p.size ≤ p.active.length := by
  have hnodup : ((List.range p.size).map fun i => (p.worker i).job.getD 0).Nodup := by
    refine List.Nodup.map_on (fun i hi j hj heq => ?_) List.nodup_range
    obtain ⟨k, hk, -⟩ := hbusy i (List.mem_range.1 hi)
    obtain ⟨k', hk', -⟩ := hbusy j (List.mem_range.1 hj)
    rw [hk, hk'] at heq
    obtain rfl : k = k' := heq
    exact h.job_inj i j k hk hk'
  have hsub : ((List.range p.size).map fun i => (p.worker i).job.getD 0) ⊆
      p.active.map (·.1) := by
    intro k hk
    obtain ⟨i, hi, rfl⟩ := List.mem_map.1 hk
    obtain ⟨k, hk, hactive⟩ := hbusy i (List.mem_range.1 hi)
    rw [hk]
    exact isActive_iff.1 hactive
  have hle := (List.subperm_of_subset hnodup hsub).length_le
  rwa [List.length_map, List.length_range, List.length_map] at hle

/-! ## 5. Workers with nothing to do -/

theorem worker_take_self {p : Pool κ} {i : Nat} (hi : p.worker i = .inLine) :
    (p.take i).2.worker i = .inLine ∨ (p.take i).2.worker i = .busy p.started ∨
      (p.take i).2.worker i = .gone none := by
  have hlt : i < p.size := lt_size_of_worker (by rw [hi]; exact nofun)
  rw [take]
  split
  · split
    · exact .inr (.inl (worker_setWorker_self (p := { p with active := _, started := _ }) hlt _))
    · split
      · exact .inr (.inr (worker_setWorker_self (p := (p.leaveLine i).2) hlt _))
      · exact .inl hi
  · exact .inl hi

theorem queue_take_of_first {p : Pool κ} {i : Nat} (hfirst : p.line.head? = some i)
    {job : κ} {queue : List κ} (hqueue : p.queue = job :: queue) : (p.take i).2.queue = queue := by
  rw [take, if_pos hfirst, hqueue]
  rfl

section Settled

variable {p : Pool κ} {i : Nat}

theorem leave_ne (hi : i < p.size) (hthere : (p.worker i).isGone = false) (left : Option Nat) :
    (p.leave i left).2 ≠ p := by
  intro heq
  have hgone : (p.leave i left).2.worker i = .gone left :=
    worker_setWorker_self (p := (p.leaveLine i).2) hi _
  rw [heq] at hgone
  rw [hgone] at hthere
  cases hthere

/-- Who gets in line is in line after that, or further on. -/
theorem lineUp_ne (hi : i < p.size) (hthere : (p.worker i).isGone = false)
    (hline : p.worker i ≠ .inLine) (hstarted : p.worker i ≠ .busy p.started) :
    (({ p with line := p.line ++ [i] }.setWorker i .inLine).take i).2 ≠ p := by
  intro heq
  have hself : ({ p with line := p.line ++ [i] }.setWorker i .inLine).worker i = .inLine :=
    worker_setWorker_self (p := { p with line := p.line ++ [i] }) hi _
  have hafter := worker_take_self hself
  rw [heq] at hafter
  rcases hafter with h | h | h
  · exact hline h
  · exact hstarted h
  · rw [h] at hthere
    cases hthere

/-- Who is dismissed still has to leave. -/
theorem notMem_dismissed_of_settled (hsettled : (p.turn i).2 = p) (hi : i < p.size)
    (hthere : (p.worker i).isGone = false) : i ∉ p.dismissed := by
  intro hmem
  rw [Pool.turn] at hsettled
  split at hsettled
  · next left hw =>
    rw [hw] at hthere
    cases hthere
  all_goals
    rw [if_pos hmem] at hsettled
    exact leave_ne hi hthere _ hsettled

/-- When no worker has anything to do and jobs are waiting, all workers are at work. -/
theorem Sound.busy_of_settled (h : p.Sound) (hsettled : ∀ i, (p.turn i).2 = p)
    (hthere : ∀ i < p.size, (p.worker i).isGone = false) (hqueue : p.queue ≠ []) (i : Nat)
    (hi : i < p.size) : ∃ k, (p.worker i).job = some k ∧ p.isActive k = true := by
  have hkept (j : Nat) (hj : j < p.size) : j ∉ p.dismissed :=
    notMem_dismissed_of_settled (hsettled j) hj (hthere j hj)
  have hmoves := lineUp_ne hi (hthere i hi)
  have hturn := hsettled i
  rw [Pool.turn] at hturn
  cases hw : p.worker i with
  | gone left =>
    have := hthere i hi
    rw [hw] at this
    cases this
  | free =>
    rw [hw] at hturn hmoves
    dsimp only at hturn
    rw [if_neg (hkept i hi)] at hturn
    exact absurd hturn (hmoves nofun nofun)
  | inLine =>
    -- Whoever is first in line takes a job.
    obtain ⟨job, queue, hjobs⟩ := List.exists_cons_of_ne_nil hqueue
    obtain ⟨j, line, hline⟩ := List.exists_cons_of_ne_nil (List.ne_nil_of_mem ((h.line i).2 hw))
    have hj : p.worker j = .inLine := (h.line j).1 (by rw [hline]; exact List.mem_cons_self)
    have hlt : j < p.size := lt_size_of_worker (by rw [hj]; exact nofun)
    have hfirst := hsettled j
    rw [Pool.turn, hj] at hfirst
    dsimp only at hfirst
    rw [if_neg (hkept j hlt)] at hfirst
    have hrest := queue_take_of_first (by rw [hline]; rfl) hjobs
    rw [hfirst, hjobs] at hrest
    exact absurd hrest (List.cons_ne_self job queue)
  | busy k =>
    refine ⟨k, rfl, Decidable.byContradiction fun hover => ?_⟩
    rw [hw] at hturn hmoves
    dsimp only at hturn
    rw [if_neg (hkept i hi), if_neg hover] at hturn
    have hlt := h.job_lt i k (by rw [hw]; rfl)
    refine absurd hturn (hmoves nofun fun heq => ?_)
    rw [Worker.busy.inj heq] at hlt
    exact Nat.lt_irrefl _ hlt

end Settled

end Pool

end Uplink
