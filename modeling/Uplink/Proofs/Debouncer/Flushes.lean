import Uplink.Debouncer.Run
import Uplink.Proofs.Agenda

/-!
# When a debouncer flushes

A log says what happened to a debouncer: messages were scheduled, all was cancelled, a window was
over. From the log alone follows when the window that runs is over, which messages are kept until
then, and what was handed to the sink. Whatever the order in which operations and timers that are
due at the same moment are served, debouncer and sink are as their log says.
-/

namespace Uplink.Debouncer

variable {μ : Type}

/-! ## 1. Logs -/

inductive Entry (μ : Type) where
  | scheduled (kind : CertificateKind) (message : μ) (length time : Nat)
  | cancelled
  /-- A window was over, and the sink was still there or not. -/
  | flushed (time : Nat) (taken : Bool)

/-- The last message of a kind that was scheduled since the last flush or cancel. The latest entry
of a log is its first. -/
def latest (kind : CertificateKind) : List (Entry μ) → Option μ
  | .scheduled k message _ _ :: log => if k = kind then some message else latest kind log
  | _ => none

/-- When the window of the latest schedule is over, if nothing happened after it. -/
def closesAt : List (Entry μ) → Option Nat
  | .scheduled _ _ length time :: _ => some (time + length)
  | _ => none

/-- The last messages of all kinds, in the order in which kinds are handed over. -/
def latestOfAll (log : List (Entry μ)) : List (CertificateKind × μ) :=
  [CertificateKind.birth, .appList, .disconnect].filterMap fun kind =>
    (latest kind log).map (kind, ·)

/-- What the sink was handed: at each flush, unless it was gone, the last messages of all kinds. -/
def handed : List (Entry μ) → List (SinkNote μ)
  | [] => []
  | .flushed time true :: log =>
    handed log ++ (latestOfAll log).map fun (kind, message) => .began kind message time
  | _ :: log => handed log

/-- Every flush comes when the window of the latest schedule is over, with no other entry between
the two. -/
def IsTimely (log : List (Entry μ)) : Prop :=
  ∀ time taken before, .flushed time taken :: before <:+ log → closesAt before = some time

theorem isTimely_nil : IsTimely ([] : List (Entry μ)) := by
  intro time taken before h
  have := h.length_le
  simp at this

theorem isTimely_cons {e : Entry μ} {log : List (Entry μ)} (h : IsTimely log)
    (he : ∀ time taken, e = .flushed time taken → closesAt log = some time) :
    IsTimely (e :: log) := by
  intro time taken before hsuffix
  rcases List.suffix_cons_iff.1 hsuffix with heq | hsuffix
  · obtain ⟨rfl, rfl⟩ := List.cons.inj heq
    exact he time taken rfl
  · exact h time taken before hsuffix

/-- A log goes on up to a moment by itself: with a flush, if the window that runs is over by then. -/
def goOn (moment : Nat) (taken : Bool) (log : List (Entry μ)) : List (Entry μ) :=
  match closesAt log with
  | some time => if time ≤ moment then .flushed time taken :: log else log
  | none => log

theorem eq_of_isTimely_append {log more : List (Entry μ)} (h : IsTimely (more ++ log))
    (hmore : ∀ e ∈ more, ∃ time taken, e = .flushed time taken) :
    more = [] ∨ ∃ time taken, more = [.flushed time taken] ∧ closesAt log = some time := by
  cases more.eq_nil_or_concat with
  | inl hnil => exact .inl hnil
  | inr hconcat =>
    obtain ⟨rest, e, rfl⟩ := hconcat
    obtain ⟨time, taken, rfl⟩ := hmore e (by simp)
    have hfirst := h time taken log (by simp)
    cases rest.eq_nil_or_concat with
    | inl hnil => exact .inr ⟨time, taken, by simp [hnil], hfirst⟩
    | inr hconcat =>
      -- Nothing is running right after a flush.
      obtain ⟨rest, e, rfl⟩ := hconcat
      obtain ⟨time', taken', rfl⟩ := hmore e (by simp)
      have hagain := h time' taken' (.flushed time taken :: log) (by simp)
      cases hagain

namespace Run

/-! ## 2. Courses -/

/-- The turn of the activity of a window flushes the debouncer if the window is over. -/
def flushing (generation : Nat) (r : Run μ) : List (Entry μ) :=
  if (r.debouncer.glance generation r.agenda.now).1 = .due then [.flushed r.agenda.now r.sink]
  else []

/-- What can become of a debouncer that was new, with what happened to it meanwhile. Operations come
at any time, those who are ready take turns in any order, and time does not pass while anybody is
ready. -/
inductive Course : List (Entry μ) → Run μ → Prop where
  | new : Course [] {}
  | schedule {log : List (Entry μ)} {r : Run μ} (h : Course log r) (kind : CertificateKind)
    (message : μ) (length : Nat) :
    Course (.scheduled kind message length r.agenda.now :: log) (r.schedule kind message length)
  | cancel {log : List (Entry μ)} {r : Run μ} (h : Course log r) :
    Course (.cancelled :: log) r.cancel
  | turn {log : List (Entry μ)} {r : Run μ} (h : Course log r) {generation : Nat}
    {agenda : Agenda Nat} (hturn : Agenda.TurnOf generation r.agenda agenda) :
    Course (r.flushing generation ++ log) ({ r with agenda }.turn generation)
  | pass {log : List (Entry μ)} {r : Run μ} (h : Course log r) {agenda : Agenda Nat}
    (hpass : r.agenda.Passes agenda) : Course log { r with agenda }
  /-- The sink goes away, or another one takes its place. -/
  | setSink {log : List (Entry μ)} {r : Run μ} (h : Course log r) (sink : Bool) :
    Course log { r with sink }

/-- A window that is over at a time runs: it has not begun yet, or its alarm is set, or its alarm has
rung and its activity is ready. -/
inductive Awaits (a : Agenda Nat) (w : Window) (time : Nat) : Prop where
  | fresh (hcloses : w.closesAt = none) (htime : time = a.now + w.length)
    (hready : w.generation ∈ a.ready)
  | running (hcloses : w.closesAt = some time) (hnow : a.now < time)
    (halarm : (time, w.generation) ∈ a.alarms)
  | elapsed (hcloses : w.closesAt = some time) (hnow : a.now = time)
    (hready : w.generation ∈ a.ready)

namespace Awaits

variable {a a' : Agenda Nat} {w : Window} {time : Nat}

theorem getD_closesAt (h : Awaits a w time) : w.closesAt.getD (a.now + w.length) = time := by
  cases h with
  | fresh hcloses htime => rw [hcloses, htime]; rfl
  | running hcloses => rw [hcloses]; rfl
  | elapsed hcloses => rw [hcloses]; rfl

theorem now_le (h : Awaits a w time) : a.now ≤ time := by
  cases h with
  | fresh _ htime => omega
  | running _ hnow => omega
  | elapsed _ hnow => omega

theorem lt_of_idle (h : Awaits a w time) (hidle : a.ready = []) : a.now < time := by
  cases h with
  | fresh _ _ hready => rw [hidle] at hready; cases hready
  | running _ hnow => exact hnow
  | elapsed _ _ hready => rw [hidle] at hready; cases hready

theorem of_turn {generation : Nat} (h : Awaits a w time)
    (hturn : Agenda.TurnOf generation a a') (hne : w.generation ≠ generation) :
    Awaits a' w time := by
  cases h with
  | fresh hcloses htime hready =>
    exact .fresh hcloses (by rw [hturn.now, htime]) (hturn.others _ hready hne)
  | running hcloses hnow halarm =>
    exact .running hcloses (by rwa [hturn.now]) (by rwa [hturn.alarms])
  | elapsed hcloses hnow hready =>
    exact .elapsed hcloses (by rw [hturn.now, hnow]) (hturn.others _ hready hne)

theorem of_pass (h : Awaits a w time) (hpass : a.Passes a') : Awaits a' w time := by
  cases h with
  | fresh _ _ hready => rw [hpass.idle] at hready; cases hready
  | running hcloses hnow halarm =>
    rcases hpass.alarms _ halarm with ⟨hlt, halarm'⟩ | ⟨heq, hready⟩
    · exact .running hcloses hlt halarm'
    · exact .elapsed hcloses heq hready
  | elapsed _ _ hready => rw [hpass.idle] at hready; cases hready

end Awaits

/-! ## 3. Debouncers are as their logs say -/

/-- A debouncer with a sink that takes no time is as a log says. -/
structure Tells (log : List (Entry μ)) (r : Run μ) : Prop where
  alive : r.alive = true
  prompt : r.sinkDelay = 0
  flushes : r.flushes = []
  kept : ∀ kind, r.debouncer.kept kind = latest kind log
  idle : r.debouncer.window = none → closesAt log = none
  awaits : ∀ w, r.debouncer.window = some w →
    ∃ time, closesAt log = some time ∧ Awaits r.agenda w time
  ahead : ∀ e ∈ r.agenda.alarms, r.agenda.now < e.1
  notes : r.notes = handed log
  timely : IsTimely log

theorem hand_of_prompt {r : Run μ} (h : r.sinkDelay = 0) (generation : Nat)
    (batch : List (CertificateKind × μ)) : r.hand generation batch =
      { r with notes := r.notes ++
          batch.map fun (kind, message) => .began kind message r.agenda.now } := by
  induction batch generalizing r with
  | nil => simp [hand]
  | cons e rest ih =>
    have hnote : (r.note (.began e.1 e.2 r.agenda.now)).sinkDelay = 0 := h
    rw [hand, if_pos hnote, ih hnote]
    simp [note]

theorem turn_eq {r : Run μ} (h : r.flushes = []) (generation : Nat) :
    r.turn generation =
      match r.debouncer.glance generation r.agenda.now with
      | (.stopped, _) => r
      | (.waits time, debouncer) =>
        { r with debouncer, agenda := (r.agenda.silence generation).alarm time generation }
      | (.due, debouncer) =>
        if r.sink then { r with debouncer := debouncer.flushed }.hand generation debouncer.batch
        else { r with debouncer := debouncer.flushed } := by
  rw [turn, h]
  rfl

namespace Tells

variable {log : List (Entry μ)} {r : Run μ}

theorem new : Tells [] ({} : Run μ) :=
  ⟨rfl, rfl, rfl, fun _ => rfl, fun _ => rfl, nofun, nofun, rfl, isTimely_nil⟩

theorem schedule (h : Tells log r) (kind : CertificateKind) (message : μ) (length : Nat) :
    Tells (.scheduled kind message length r.agenda.now :: log)
      (r.schedule kind message length) := by
  rw [Run.schedule, if_pos h.alive]
  refine ⟨h.alive, h.prompt, h.flushes, fun k => ?_, nofun, ?_, ?_, h.notes,
    isTimely_cons h.timely nofun⟩
  · show (if k = kind then some message else r.debouncer.kept k) =
      if kind = k then some message else latest k log
    rw [h.kept k]
    by_cases hk : k = kind
    · rw [if_pos hk, if_pos hk.symm]
    · rw [if_neg hk, if_neg (Ne.symm hk)]
  · rintro w ⟨⟩
    refine ⟨_, rfl, .fresh rfl ?_ (Agenda.mem_ready_wake.2 (.inr rfl))⟩
    show _ = (r.agenda.wake _).now + length
    rw [Agenda.wake_eq]
  · dsimp only
    rw [Agenda.wake_eq]
    exact h.ahead

theorem cancel (h : Tells log r) : Tells (.cancelled :: log) r.cancel :=
  ⟨h.alive, h.prompt, h.flushes, fun _ => rfl, fun _ => rfl, nofun, h.ahead, h.notes,
    isTimely_cons h.timely nofun⟩

theorem pass (h : Tells log r) {agenda : Agenda Nat} (hpass : r.agenda.Passes agenda) :
    Tells log { r with agenda } := by
  refine ⟨h.alive, h.prompt, h.flushes, h.kept, h.idle, fun w hw => ?_, hpass.ahead, h.notes,
    h.timely⟩
  obtain ⟨time, hcloses, hawaits⟩ := h.awaits w hw
  exact ⟨time, hcloses, hawaits.of_pass hpass⟩

theorem batch_eq (h : Tells log r) : r.debouncer.batch = latestOfAll log := by
  rw [batch, latestOfAll]
  simp only [h.kept]

theorem turn (h : Tells log r) {generation : Nat} {agenda : Agenda Nat}
    (hturn : Agenda.TurnOf generation r.agenda agenda) :
    Tells (r.flushing generation ++ log) ({ r with agenda }.turn generation) := by
  rw [turn_eq (r := { r with agenda }) h.flushes]
  dsimp only
  rw [hturn.now, flushing]
  have hahead : ∀ e ∈ agenda.alarms, agenda.now < e.1 := by
    rw [hturn.alarms, hturn.now]
    exact h.ahead
  obtain ⟨hglance, hother⟩ | ⟨w, hw, rfl, ⟨hle, hglance⟩ | ⟨hlt, hglance⟩⟩ :=
    glance_cases generation r.agenda.now r.debouncer
  · -- The window of this activity was stopped, and the one that runs is that of another.
    rw [hglance]
    refine ⟨h.alive, h.prompt, h.flushes, h.kept, h.idle, fun w hw => ?_, hahead, h.notes,
      h.timely⟩
    obtain ⟨time, hcloses, hawaits⟩ := h.awaits w hw
    exact ⟨time, hcloses, hawaits.of_turn hturn (hother w hw)⟩
  · -- The window is over, and what is kept is handed over.
    obtain ⟨time, hcloses, hawaits⟩ := h.awaits w hw
    rw [hawaits.getD_closesAt] at hle
    have hnow : r.agenda.now = time := Nat.le_antisymm hawaits.now_le hle
    have htimely (taken : Bool) : IsTimely (.flushed r.agenda.now taken :: log) :=
      isTimely_cons h.timely (by rintro _ _ ⟨⟩; rw [hcloses, hnow])
    rw [hglance]
    dsimp only
    rw [if_pos rfl, h.batch_eq]
    cases hsink : r.sink with
    | true =>
      rw [if_pos rfl, hand_of_prompt (by exact h.prompt)]
      refine ⟨h.alive, h.prompt, h.flushes, fun _ => rfl, fun _ => rfl, nofun, hahead, ?_,
        htimely true⟩
      dsimp only
      rw [h.notes, hturn.now]
      rfl
    | false =>
      exact ⟨h.alive, h.prompt, h.flushes, fun _ => rfl, fun _ => rfl, nofun, hahead, h.notes,
        htimely false⟩
  · -- The window goes on, and its alarm is set.
    obtain ⟨time, hcloses, hawaits⟩ := h.awaits w hw
    rw [hawaits.getD_closesAt] at hlt hglance
    have hlater : agenda.now < time := by rwa [hturn.now]
    rw [hglance]
    refine ⟨h.alive, h.prompt, h.flushes, h.kept, nofun, ?_, fun e he => ?_, h.notes, h.timely⟩
    · rintro _ ⟨⟩
      exact ⟨time, hcloses, .running rfl hlater (List.mem_append_right _ (List.mem_singleton.2 rfl))⟩
    · rcases List.mem_append.1 he with he | he
      · exact hahead e (List.mem_filter.1 he).1
      · rw [List.mem_singleton.1 he]
        exact hlater

end Tells

theorem Course.tells {log : List (Entry μ)} {r : Run μ} (h : Course log r) : Tells log r := by
  induction h with
  | new => exact .new
  | schedule _ kind message length ih => exact ih.schedule kind message length
  | cancel _ ih => exact ih.cancel
  | turn _ hturn ih => exact ih.turn hturn
  | pass _ hpass ih => exact ih.pass hpass
  | setSink _ sink ih =>
    exact ⟨ih.alive, ih.prompt, ih.flushes, ih.kept, ih.idle, ih.awaits, ih.ahead, ih.notes,
      ih.timely⟩

/-- The window that runs is not over yet, and its end does not pass unnoticed. -/
theorem Course.now_le {log : List (Entry μ)} {r : Run μ} (h : Course log r) {time : Nat}
    (hcloses : closesAt log = some time) :
    r.agenda.now ≤ time ∧ (r.agenda.ready = [] → r.agenda.now < time) := by
  cases hw : r.debouncer.window with
  | none =>
    rw [h.tells.idle hw] at hcloses
    cases hcloses
  | some w =>
    obtain ⟨time', hcloses', hawaits⟩ := h.tells.awaits w hw
    obtain rfl := Option.some.inj (hcloses.symm.trans hcloses')
    exact ⟨hawaits.now_le, hawaits.lt_of_idle⟩

/-! ## 4. Time passes -/

/-- How much there is left to do: alarms that have to ring, turns, and a window that has to begin. -/
def effort (r : Run μ) : Nat :=
  2 * r.agenda.alarms.length + r.agenda.ready.length +
    if r.debouncer.window.any (·.closesAt.isNone) then 2 else 0

theorem Tells.turn_spec {log : List (Entry μ)} {r : Run μ} (h : Tells log r) {generation : Nat}
    {agenda : Agenda Nat} (hturn : Agenda.TurnOf generation r.agenda agenda) :
    let next := { r with agenda }.turn generation
    next.agenda.now = r.agenda.now ∧ next.sink = r.sink ∧ next.effort < r.effort := by
  have hlength := hturn.length
  intro next
  have hnext : next = _ := turn_eq (r := { r with agenda }) h.flushes generation
  dsimp only at hnext
  rw [hturn.now] at hnext
  obtain ⟨hglance, -⟩ | ⟨w, hw, rfl, ⟨-, hglance⟩ | ⟨hlt, hglance⟩⟩ :=
    glance_cases generation r.agenda.now r.debouncer
  · rw [hnext, hglance]
    refine ⟨hturn.now, rfl, ?_⟩
    dsimp only [effort]
    rw [hturn.alarms]
    omega
  · rw [hglance] at hnext
    dsimp only at hnext
    have hsame : next.agenda = agenda ∧ next.sink = r.sink ∧
        next.debouncer = r.debouncer.flushed := by
      rw [hnext]
      split
      · rw [hand_of_prompt (by exact h.prompt)]
        exact ⟨rfl, rfl, rfl⟩
      · exact ⟨rfl, rfl, rfl⟩
    obtain ⟨hagenda, hsink, hdebouncer⟩ := hsame
    refine ⟨by rw [hagenda, hturn.now], hsink, ?_⟩
    rw [effort, effort, hagenda, hdebouncer, hturn.alarms]
    simp only [flushed, Option.any_none, Bool.false_eq_true, if_false]
    omega
  · rw [hnext, hglance]
    refine ⟨hturn.now, rfl, ?_⟩
    have hfilter := List.length_filter_le (fun e : Nat × Nat => e.2 != w.generation) agenda.alarms
    simp only [effort, hw, Agenda.alarm, Agenda.silence, List.length_append, List.length_singleton,
      Option.any_some, Option.isNone_some, Bool.false_eq_true, if_false]
    cases hcloses : w.closesAt with
    | none =>
      -- The window begins: from now on there is its alarm.
      rw [hturn.alarms] at hfilter ⊢
      simp only [Option.isNone_none, if_true]
      omega
    | some time =>
      -- Its alarm takes the place of the one that was set already.
      obtain ⟨time', -, hawaits⟩ := h.awaits w hw
      rw [hawaits.getD_closesAt] at hlt
      have hset : (time', w.generation) ∈ agenda.alarms := by
        rw [hturn.alarms]
        cases hawaits with
        | fresh hnone => rw [hnone] at hcloses; cases hcloses
        | running _ _ halarm => exact halarm
        | elapsed _ hnow => omega
      have hless : (agenda.alarms.filter (·.2 != w.generation)).length < agenda.alarms.length :=
        List.length_filter_lt_length_iff_exists.2 ⟨_, hset, by simp⟩
      rw [hturn.alarms] at hless ⊢
      simp only [Option.isNone_some, Bool.false_eq_true, if_false]
      omega

/-- Up to a moment, a debouncer comes to a state by itself. -/
structure Comes (log : List (Entry μ)) (r : Run μ) (moment : Nat) (v : Run μ) : Prop where
  course : ∃ more, Course (more ++ log) v ∧ ∀ e ∈ more, ∃ time ≤ moment, e = .flushed time r.sink
  now_le : v.agenda.now ≤ moment
  sink : v.sink = r.sink

theorem Comes.next {log : List (Entry μ)} {r v next : Run μ} {moment : Nat}
    (h : Comes log r moment v)
    (hnext : Timed.next? (fun _ => false) (· ≤ moment) v = some next) :
    Comes log r moment next ∧ next.effort < v.effort := by
  obtain ⟨more, hcourse, hmore⟩ := h.course
  -- Somebody has a turn, which may add a flush, or the next alarm rings.
  obtain ⟨-, ⟨generation, agenda, hturn, rfl⟩ | ⟨time, hidle, hnextAlarm, hle, rfl⟩⟩ :=
    Timed.next?_cases hnext
  · obtain ⟨hnow, hsink, heffort⟩ := hcourse.tells.turn_spec hturn
    refine ⟨⟨⟨v.flushing generation ++ more, ?_, fun e he => ?_⟩, ?_, hsink.trans h.sink⟩, heffort⟩
    · rw [List.append_assoc]
      exact hcourse.turn hturn
    · rcases List.mem_append.1 he with he | he
      · rw [flushing] at he
        split at he
        · exact ⟨_, h.now_le, by rw [List.mem_singleton.1 he, h.sink]⟩
        · cases he
      · exact hmore e he
    · exact Nat.le_trans (Nat.le_of_eq hnow) h.now_le
  · obtain ⟨k, hk⟩ := Agenda.exists_of_nextAlarm? hnextAlarm
    have hpass : v.agenda.Passes (v.agenda.ring time) :=
      Agenda.passes_ring hidle (Nat.le_of_lt (hcourse.tells.ahead _ hk)) fun e he =>
        Agenda.le_of_nextAlarm? hnextAlarm he
    refine ⟨⟨⟨more, hcourse.pass hpass, hmore⟩, ?_, h.sink⟩, ?_⟩
    · show (v.agenda.ring time).now ≤ moment
      rw [Agenda.ring_now]
      exact of_decide_eq_true hle
    · have hless := Agenda.length_ring_lt hnextAlarm
      show 2 * (v.agenda.ring time).alarms.length + (v.agenda.ring time).ready.length + _ < _
      rw [effort]
      exact Nat.add_lt_add_right hless _

theorem idle_of_next? {v : Run μ} {moment : Nat}
    (h : Timed.next? (fun _ => false) (· ≤ moment) v = none) :
    v.agenda.ready = [] ∧ ∀ e ∈ v.agenda.alarms, moment < e.1 := by
  obtain ⟨hidle, halarm⟩ := (Timed.ended_of_next? h).resolve_left Bool.false_ne_true
  exact ⟨hidle, Agenda.lt_of_forall_nextAlarm? fun t ht => by simpa using halarm t ht⟩

/-- Nothing but the flush that is due comes of itself. -/
theorem Course.pass_time {log : List (Entry μ)} {r : Run μ} (h : Course log r) (ms : Nat) :
    Course (goOn (r.agenda.now + ms) r.sink log) (Timed.pass ms r) := by
  have hstart : Comes log r (r.agenda.now + ms) r :=
    ⟨⟨[], h, nofun⟩, Nat.le_add_right .., rfl⟩
  -- What happens until the moment comes to an end, as there is less and less to do.
  obtain ⟨v, _, hdrive, ⟨hcomes, -⟩, hended⟩ := Timed.exists_endsIn
    (motive := fun effort v => Comes log r (r.agenda.now + ms) v ∧ v.effort = effort)
    ⟨hstart, rfl⟩ fun effort v next hv hnext => by
      obtain ⟨hcomes, hless⟩ := hv.1.next hnext
      exact ⟨_, hv.2 ▸ hless, hcomes, rfl⟩
  have hpassed : Timed.pass ms r = { v with agenda := { v.agenda with now := r.agenda.now + ms } } := by
    change Timed.drive _ (· ≤ Timed.now r + ms) r = some v at hdrive
    rw [Timed.pass, hdrive]
    rfl
  obtain ⟨hidle, hahead⟩ := idle_of_next? hended
  obtain ⟨more, hcourse, hmore⟩ := hcomes.course
  have hpass : v.agenda.Passes { v.agenda with now := r.agenda.now + ms } :=
    ⟨hidle, hcomes.now_le, fun e he => .inl ⟨hahead e he, he⟩, hahead⟩
  have hfinal := hcourse.pass hpass
  rw [hpassed]
  suffices heq : goOn (r.agenda.now + ms) r.sink log = more ++ log by rwa [heq]
  rcases eq_of_isTimely_append hfinal.tells.timely fun e he =>
      (hmore e he).elim fun time h => ⟨time, r.sink, h.2⟩ with rfl | ⟨time, taken, rfl, hcloses⟩
  · -- A window that was over would have been noticed.
    rw [goOn]
    split
    · next time hcloses =>
      rw [if_neg (Nat.not_le.2 ((hfinal.now_le hcloses).2 hidle))]
      rfl
    · rfl
  · obtain ⟨time', hle, heq⟩ := hmore _ (List.mem_singleton.2 rfl)
    obtain ⟨rfl, rfl⟩ := Entry.flushed.inj heq
    rw [goOn, hcloses]
    dsimp only
    rw [if_pos hle]
    rfl

/-- Whatever the order in which turns are taken: every flush comes when the window of the latest
schedule is over, with no other schedule and no cancel since; no such window passes without its flush;
the sink was handed at each flush that found it the last messages of all kinds, and nothing else; and
pending are the kinds of which a message was scheduled since the last flush or cancel. -/
theorem flushes_in_time {log : List (Entry μ)} {r : Run μ} (h : Course log r) :
    (∀ time taken before, .flushed time taken :: before <:+ log → closesAt before = some time) ∧
      (∀ time, closesAt log = some time →
        r.agenda.now ≤ time ∧ (r.agenda.ready = [] → r.agenda.now < time)) ∧
      (∀ ms, Course (goOn (r.agenda.now + ms) r.sink log) (Timed.pass ms r)) ∧
      r.notes = handed log ∧
      ∀ kind, r.debouncer.isPending kind = (latest kind log).isSome := by
  refine ⟨h.tells.timely, fun time => h.now_le, h.pass_time, h.tells.notes, fun kind => ?_⟩
  rw [isPending, h.tells.kept]

/-- A window is over at the moment at which the next one starts, and its activity has its turn after
that. -/
theorem flushes_in_time_of_late_schedule : ∃ r : Run Nat,
    Course [.flushed 8 true, .scheduled .appList 2 3 5, .scheduled .birth 1 5 0] r ∧
      r.notes = [.began .birth 1 8, .began .appList 2 8] ∧
      ∀ kind, r.debouncer.isPending kind = false := by
  have hfirst := (Course.new.schedule .birth 1 5).turn (Agenda.turnOf_of_next? rfl)
  have hover := hfirst.pass (Agenda.passes_ring rfl (by decide : 0 ≤ 5) (by decide))
  have hlate := (hover.schedule .appList 2 3).turn (Agenda.turnOf_of_next? rfl)
  have hsecond := hlate.turn (Agenda.turnOf_of_next? rfl)
  have hend := hsecond.pass (Agenda.passes_ring rfl (by decide : 5 ≤ 8) (by decide))
  have hflush := hend.turn (Agenda.turnOf_of_next? rfl)
  refine ⟨_, hflush, (flushes_in_time hflush).2.2.2.1, fun kind => ?_⟩
  rw [(flushes_in_time hflush).2.2.2.2]
  rfl

end Run

end Uplink.Debouncer
