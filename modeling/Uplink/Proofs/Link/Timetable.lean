import Uplink.Proofs.Link.Journey

/-!
# The timetable of a link that does not come up

Whatever the order in which turns are taken, a client that is told to connect keeps to a timetable
that only the policy makes. Under every policy that does not make attempts for ever without a delay,
time can pass, and the caller gets its answer.
-/

namespace Uplink.Link.Client

variable {c₀ c next : Client} {caller : Caller}

/-! ## 1. Runs -/

/-- Agendas let a client go on its course, with less and less to do. -/
theorem Course.of_next? (h : Course c₀ caller c) (hnew : c₀.IsNew) {goal : Client → Bool}
    {mayWait : Nat → Bool} (hnext : Timed.next? goal mayWait c = some next) :
    Course c₀ caller next ∧
      (next.agenda.now = c.agenda.now ∨
        c.agenda.ready = [] ∧ c.agenda.nextAlarm? = some next.agenda.now ∧
          mayWait next.agenda.now = true ∧ c.agenda.now ≤ next.agenda.now) ∧
      ∀ most, (∀ k, c₀.policy.Allows k →
        c₀.agenda.now + c₀.policy.due k ≤ next.agenda.now → k ≤ most) →
          next.effort most < c.effort most := by
  -- A strand has its turn, or nobody is ready and the next alarm rings.
  obtain ⟨-, ⟨strand, agenda, hturn, rfl⟩ | ⟨time, hidle, halarm, hmay, rfl⟩⟩ :=
    Timed.next?_cases hnext
  · have hprogress := (h.onCourse hnew).turn hturn
    refine ⟨h.turn hturn, .inl hprogress.now, fun most hmost => hprogress.effort_lt most ?_⟩
    rw [← hprogress.now]
    exact hmost
  · obtain ⟨k, hk⟩ := Agenda.exists_of_nextAlarm? halarm
    have hle : c.agenda.now ≤ time := Nat.le_of_lt ((h.onCourse hnew).ahead _ hk)
    have hnow : (Timed.plan (·.ring time) c).agenda.now = time := Agenda.ring_now time c.agenda
    refine ⟨h.pass (Agenda.passes_ring hidle hle fun e he => Agenda.le_of_nextAlarm? halarm he),
      .inr ?_, fun most _ => ?_⟩
    · rw [hnow]
      exact ⟨hidle, halarm, hmay, hle⟩
    · have hless := Agenda.length_ring_lt (a := c.agenda) halarm
      show 4 * c.attemptsLeft most + 2 * (c.agenda.ring time).alarms.length +
        (c.agenda.ring time).ready.length < _
      rw [effort]
      omega

/-- A run that does not go on beyond a moment comes to an end. -/
theorem Course.drive (h : Course c₀ caller c) (hnew : c₀.IsNew) (hpauses : c₀.policy.Pauses)
    {goal : Client → Bool} {mayWait : Nat → Bool} {moment : Nat} (hnow : c.agenda.now ≤ moment)
    (hmoment : ∀ v next, Course c₀ caller v → Timed.next? goal mayWait v = some next →
      v.agenda.now ≤ moment → next.agenda.now ≤ moment) :
    ∃ v, Timed.drive goal mayWait c = some v ∧ Course c₀ caller v ∧ c.agenda.now ≤ v.agenda.now ∧
      v.agenda.now ≤ moment ∧ Timed.next? goal mayWait v = none := by
  obtain ⟨v, _, hdrive, ⟨hcourse, hsince, huntil, -⟩, hended⟩ := Timed.exists_endsIn
    (motive := fun effort v => Course c₀ caller v ∧ c.agenda.now ≤ v.agenda.now ∧
      v.agenda.now ≤ moment ∧ v.effort (c₀.policy.reach (moment - c₀.agenda.now)) = effort)
    ⟨h, Nat.le_refl _, hnow, rfl⟩ fun effort v next hv hnext => by
      obtain ⟨hcourse, hsince, huntil, rfl⟩ := hv
      obtain ⟨hcourse', htime, hless⟩ := hcourse.of_next? hnew hnext
      have huntil' := hmoment v next hcourse hnext huntil
      have hsince' : c.agenda.now ≤ next.agenda.now := by
        rcases htime with heq | ⟨-, -, -, hle⟩
        · rwa [heq]
        · exact Nat.le_trans hsince hle
      refine ⟨_, hless _ fun k hallows hdue => ?_, hcourse', hsince', huntil', rfl⟩
      exact Policy.le_reach hpauses hallows (by omega)
  exact ⟨v, hdrive, hcourse, hsince, huntil, hended⟩

theorem Course.settle (h : Course c₀ caller c) (hnew : c₀.IsNew) (hpauses : c₀.policy.Pauses) :
    Course c₀ caller (Timed.settle c) ∧ (Timed.settle c).agenda.ready = [] ∧
      (Timed.settle c).agenda.now = c.agenda.now := by
  have hmoment (v next : Client) (hv : Course c₀ caller v)
      (hnext : Timed.next? (fun _ => false) (fun _ => false) v = some next)
      (hle : v.agenda.now ≤ c.agenda.now) : next.agenda.now ≤ c.agenda.now := by
    rcases (hv.of_next? hnew hnext).2.1 with heq | ⟨-, -, hmay, -⟩
    · rwa [heq]
    · cases hmay
  obtain ⟨v, hdrive, hcourse, hsince, huntil, hended⟩ :=
    h.drive hnew hpauses (Nat.le_refl _) hmoment
  have hidle := (Timed.ended_of_next? hended).resolve_left Bool.false_ne_true
  rw [Timed.settle, hdrive]
  exact ⟨hcourse, hidle.1, Nat.le_antisymm huntil hsince⟩

theorem Course.pass_time (h : Course c₀ caller c) (hnew : c₀.IsNew) (hpauses : c₀.policy.Pauses)
    (ms : Nat) :
    Course c₀ caller (Timed.pass ms c) ∧ (Timed.pass ms c).agenda.ready = [] ∧
      (Timed.pass ms c).agenda.now = c.agenda.now + ms := by
  have hmoment (v next : Client) (hv : Course c₀ caller v)
      (hnext : Timed.next? (fun _ => false) (· ≤ c.agenda.now + ms) v = some next)
      (hle : v.agenda.now ≤ c.agenda.now + ms) : next.agenda.now ≤ c.agenda.now + ms := by
    rcases (hv.of_next? hnew hnext).2.1 with heq | ⟨-, -, hmay, -⟩
    · rwa [heq]
    · exact of_decide_eq_true hmay
  obtain ⟨v, hdrive, hcourse, -, huntil, hended⟩ :=
    h.drive hnew hpauses (Nat.le_add_right ..) hmoment
  obtain ⟨hidle, halarm⟩ := (Timed.ended_of_next? hended).resolve_left Bool.false_ne_true
  have hahead : ∀ e ∈ v.agenda.alarms, c.agenda.now + ms < e.1 :=
    Agenda.lt_of_forall_nextAlarm? fun t ht => by simpa using halarm t ht
  have hpassed : Timed.pass ms c =
      { v with agenda := { v.agenda with now := c.agenda.now + ms } } := by
    change Timed.drive _ (· ≤ Timed.now c + ms) c = some v at hdrive
    rw [Timed.pass, hdrive]
    rfl
  rw [hpassed]
  exact ⟨hcourse.pass ⟨hidle, huntil, fun e he => .inl ⟨hahead e he, he⟩, hahead⟩, hidle, rfl⟩

theorem Course.getD_drive (h : Course c₀ caller c) (hnew : c₀.IsNew) (goal : Client → Bool)
    (mayWait : Nat → Bool) : Course c₀ caller ((Timed.drive goal mayWait c).getD c) := by
  cases hdrive : Timed.drive goal mayWait c with
  | none => exact h
  | some v =>
    have hreaches := (Timed.drive_eq_some_iff.1 hdrive).reaches
    clear hdrive
    induction hreaches with
    | refl => exact h
    | step _ hnext ih => exact (Course.of_next? ih hnew hnext).1

/-! ## 2. Calls -/

/-- The turn that the call takes in the foreground, before anybody else. -/
def openInForeground (c : Client) : Client :=
  (Timed.plan (fun a => { a with foreground := some (.call none), yielded := 0 })
    (c.hold none (.opening .connect))).turn (.call none)

theorem course_openInForeground (hnew : c₀.IsNew) :
    Course c₀ none c₀.openInForeground ∧ c₀.openInForeground.agenda.now = c₀.agenda.now := by
  -- The call is taken off the agenda on which it stands before all others.
  have hasked : Course c₀ none ({ c₀ with
      agenda := { c₀.agenda with
        ready := .call none :: c₀.agenda.ready
        foreground := some (.call none)
        yielded := 0 } }.hold none (.opening .connect)) :=
    .asked rfl rfl List.mem_cons_self
  have hturn : Agenda.TurnOf (.call none)
      { c₀.agenda with
        ready := .call none :: c₀.agenda.ready
        foreground := some (.call none)
        yielded := 0 }
      { c₀.agenda with foreground := some (.call none), yielded := 0 } :=
    ⟨List.mem_cons_self, fun other hother hne => (List.mem_cons.1 hother).resolve_left hne,
      Nat.lt_succ_self _, rfl, rfl⟩
  exact ⟨hasked.turn hturn, ((hasked.onCourse hnew).turn hturn).now⟩

theorem course_ask (hnew : c₀.IsNew) (caller : Caller) :
    Course c₀ caller (c₀.ask caller .connect) := by
  cases caller with
  | some name =>
    have halarms : (c₀.agenda.wake (.call (some name))).alarms = c₀.agenda.alarms := by
      rw [Agenda.wake_eq]
    have hnow : (c₀.agenda.wake (.call (some name))).now = c₀.agenda.now := by
      rw [Agenda.wake_eq]
    exact .asked hnow halarms (Agenda.mem_ready_wake.2 (.inr rfl))
  | none =>
    have hbegun := (course_openInForeground hnew).1
    exact (hbegun.getD_drive hnew (·.isDone none) fun _ => true).attend none _

/-- While attempts are left and nobody is ready, an alarm rings before it is time to give up. -/
theorem Leg.exists_alarm {p : Policy} {cause : String} {start : Nat} (h : Leg p cause start c)
    (hidle : c.agenda.ready = []) (hleft : c.supervisor ≠ none) {m : Nat}
    (hmax : p.maxAttempts = some m) : ∃ e ∈ c.agenda.alarms, e.1 ≤ start + p.due m := by
  cases h with
  | tries _ _ _ _ _ hready => exact absurd hidle (List.ne_nil_of_mem hready)
  | rests k hallows _ _ _ hawaits =>
    cases hawaits with
    | running _ halarm =>
      have hdue := p.due_mono (hallows m hmax)
      exact ⟨_, halarm, Nat.add_le_add_left hdue start⟩
    | elapsed _ hready => exact absurd hidle (List.ne_nil_of_mem hready)
  | ended _ _ _ _ hnone => exact absurd hnone hleft

/-- While there is no answer and nobody is ready, the alarm of the caller is set, and one that rings
before it is time to give up. -/
theorem Course.exists_alarm (h : Course c₀ caller c) (hnew : c₀.IsNew)
    (hidle : c.agenda.ready = []) (hopen : c.isDone caller = false) :
    (c₀.agenda.now + connectWaitMs, .call caller) ∈ c.agenda.alarms ∧
      ∀ m, c₀.policy.maxAttempts = some m →
        ∃ e ∈ c.agenda.alarms, e.1 ≤ c₀.agenda.now + c₀.policy.due m := by
  cases h.onCourse hnew with
  | asked hasked => exact absurd hidle (List.ne_nil_of_mem hasked.ready)
  | travels htravels =>
    cases htravels.call with
    | waits _ _ hawaits hlooks =>
      cases hawaits with
      | running _ halarm =>
        exact ⟨halarm, fun m => htravels.leg.exists_alarm hidle fun hnone =>
          List.ne_nil_of_mem (hlooks hnone) hidle⟩
      | elapsed _ hready => exact absurd hidle (List.ne_nil_of_mem hready)
    | told _ hcalls =>
      rw [isDone, hcalls] at hopen
      cases hopen

theorem Course.exists_told (h : Course c₀ caller c) (hnew : c₀.IsNew)
    (hdone : c.isDone caller = true) :
    ∃ e, Verdict c₀.policy c₀.agenda.now c.agenda.now e ∧
      c.finished = c₀.finished ++ [(caller, .error e)] := by
  have hopen (d : Dialogue) (hcalls : c.calls = [(caller, d)]) : False := by
    rw [isDone, hcalls, List.lookup_cons, beq_self_eq_true] at hdone
    cases hdone
  cases h.onCourse hnew with
  | asked hasked => exact (hopen _ hasked.calls).elim
  | travels htravels =>
    cases htravels.call with
    | waits hcalls => exact (hopen _ hcalls).elim
    | told e _ hfinished hverdict => exact ⟨e, hverdict, hfinished⟩

/-- Who waits in the foreground gets an answer, by the time by which some alarm rings in any case. -/
theorem isDone_ask (hnew : c₀.IsNew) (hpauses : c₀.policy.Pauses) {time : Nat}
    (hle : c₀.agenda.now ≤ time)
    (halarm : ∀ v, Course c₀ none v → v.agenda.ready = [] → v.isDone none = false →
      ∃ e ∈ v.agenda.alarms, e.1 ≤ time) :
    (c₀.ask none .connect).isDone none = true ∧ (c₀.ask none .connect).agenda.now ≤ time := by
  obtain ⟨hbegun, hnow⟩ := course_openInForeground hnew
  have hmoment (v next : Client) (hv : Course c₀ none v)
      (hnext : Timed.next? (·.isDone none) (fun _ => true) v = some next)
      (huntil : v.agenda.now ≤ time) : next.agenda.now ≤ time := by
    rcases (hv.of_next? hnew hnext).2.1 with heq | ⟨hidle, hring, -, -⟩
    · rwa [heq]
    · have hopen := (Timed.next?_cases hnext).1
      obtain ⟨e, he, hbefore⟩ := halarm v hv hidle hopen
      exact Nat.le_trans (Agenda.le_of_nextAlarm? hring he) hbefore
  obtain ⟨v, hdrive, hcourse, -, huntil, hended⟩ :=
    hbegun.drive hnew hpauses (hnow.trans_le hle) hmoment
  have hask : c₀.ask none .connect = Timed.plan (fun a => { a with foreground := none })
      ((Timed.drive (·.isDone none) (fun _ => true) c₀.openInForeground).getD
        c₀.openInForeground) := rfl
  rw [hask, hdrive]
  refine ⟨?_, huntil⟩
  rcases Timed.ended_of_next? hended with hdone | ⟨hidle, hnever⟩
  · exact hdone
  · -- An alarm would ring.
    by_contra hopen
    obtain ⟨e, he, -⟩ := halarm v hcourse hidle (Bool.eq_false_iff.2 hopen)
    have hlater (t : Nat) (ht : v.agenda.nextAlarm? = some t) : e.1 < t := by
      cases hnever t ht
    exact Nat.lt_irrefl _ (Agenda.lt_of_forall_nextAlarm? hlater e he)

/-- A caller is told that the link does not come as soon as that is known. -/
structure ToldInTime (c₀ : Client) (caller : Caller) (c : Client) : Prop where
  told : ∃ e, Verdict c₀.policy c₀.agenda.now c.agenda.now e ∧
    c.finished = c₀.finished ++ [(caller, .error e)]
  patient : c.agenda.now ≤ c₀.agenda.now + connectWaitMs
  prompt : ∀ m, c₀.policy.maxAttempts = some m →
    c.agenda.now ≤ c₀.agenda.now + c₀.policy.due m

theorem toldInTime_ask (hnew : c₀.IsNew) (hpauses : c₀.policy.Pauses) :
    ToldInTime c₀ none (c₀.ask none .connect) := by
  obtain ⟨hdone, hnow⟩ := isDone_ask hnew hpauses (Nat.le_add_right _ connectWaitMs)
    fun v hv hidle hopen => ⟨_, (hv.exists_alarm hnew hidle hopen).1, Nat.le_refl _⟩
  refine ⟨(course_ask hnew none).exists_told hnew hdone, hnow, fun m hmax => ?_⟩
  exact (isDone_ask hnew hpauses (Nat.le_add_right ..) fun v hv hidle hopen =>
    (hv.exists_alarm hnew hidle hopen).2 m hmax).2

/-! ## 3. The timetable -/

/-- The states that a link has gone through at a time, when attempts began at another one. -/
inductive Whereabouts (p : Policy) (cause : String) (start now : Nat) :
    List (Nat × State) → Prop where
  | asked (hnow : now = start) : Whereabouts p cause start now []
  | trying (k : Nat) (hallows : p.Allows k) (hnow : now = start + p.due k) :
    Whereabouts p cause start now (trying p cause start k)
  | resting (k : Nat) (hallows : p.Allows (k + 1)) (hsince : start + p.due k ≤ now)
    (huntil : now ≤ start + p.due (k + 1)) : Whereabouts p cause start now (resting p cause start k)
  | givenUp (m : Nat) (hmax : p.maxAttempts = some m) (hsince : start + p.due m ≤ now) :
    Whereabouts p cause start now (givenUp p cause start m)

/-- A caller is told once that the link does not come, at a certain time and not before. -/
structure ToldAt (c₀ : Client) (caller : Caller) (time : Nat) (e : LinkError) (c : Client) :
    Prop where
  once : c.finished = c₀.finished ∨ c.finished = c₀.finished ++ [(caller, .error e)]
  early : c.agenda.now < time → c.finished = c₀.finished
  late : time ≤ c.agenda.now → c.agenda.ready = [] →
    c.finished = c₀.finished ++ [(caller, .error e)]

/-- A client that was told to connect keeps to the timetable. When nobody is about to take a turn, the
time alone says what the link has gone through. -/
structure OnTime (c₀ : Client) (caller : Caller) (c : Client) : Prop where
  whereabouts : Whereabouts c₀.policy c₀.library.refusal c₀.agenda.now c.agenda.now c.history
  rests : c.agenda.ready = [] → ∀ k, c₀.policy.Allows (k + 1) →
    c₀.agenda.now + c₀.policy.due k ≤ c.agenda.now →
    c.agenda.now < c₀.agenda.now + c₀.policy.due (k + 1) →
    c.history = resting c₀.policy c₀.library.refusal c₀.agenda.now k
  givesUp : c.agenda.ready = [] → ∀ m, c₀.policy.maxAttempts = some m →
    c₀.agenda.now + c₀.policy.due m ≤ c.agenda.now →
    c.history = givenUp c₀.policy c₀.library.refusal c₀.agenda.now m
  /-- Listeners are told nothing. -/
  notices : c.notices = c₀.notices
  refused : ∀ m, c₀.policy.maxAttempts = some m → c₀.policy.due m < connectWaitMs →
    ToldAt c₀ caller (c₀.agenda.now + c₀.policy.due m)
      (.permanentlyDisconnected (tooManyAttempts m)) c
  timedOut : (∀ m, c₀.policy.maxAttempts = some m → connectWaitMs < c₀.policy.due m) →
    ToldAt c₀ caller (c₀.agenda.now + connectWaitMs) (.connectionFailed noConfirmation) c

theorem Leg.of_idle {p : Policy} {cause : String} {start : Nat} (h : Leg p cause start c)
    (hidle : c.agenda.ready = []) :
    (∃ k, p.Allows (k + 1) ∧ start + p.due k ≤ c.agenda.now ∧
      c.agenda.now < start + p.due (k + 1) ∧ c.history = resting p cause start k) ∨
    ∃ m, p.maxAttempts = some m ∧ start + p.due m ≤ c.agenda.now ∧
      c.history = givenUp p cause start m ∧ c.supervisor = none := by
  cases h with
  | tries _ _ _ _ _ hready => exact absurd hidle (List.ne_nil_of_mem hready)
  | rests k hallows hsince hhistory _ hawaits =>
    exact .inl ⟨k, hallows, hsince, hawaits.lt_of_idle hidle, hhistory⟩
  | ended m hmax hsince hhistory hsupervisor => exact .inr ⟨m, hmax, hsince, hhistory, hsupervisor⟩

theorem Leg.whereabouts {p : Policy} {cause : String} {start : Nat} (h : Leg p cause start c) :
    Whereabouts p cause start c.agenda.now c.history := by
  cases h with
  | tries k hallows hnow hhistory => rw [hhistory]; exact .trying k hallows hnow
  | rests k hallows hsince hhistory _ hawaits =>
    rw [hhistory]
    exact .resting k hallows hsince hawaits.now_le
  | ended m hmax hsince hhistory => rw [hhistory]; exact .givenUp m hmax hsince

theorem Asked.onTime (h : Asked c₀ caller c) : OnTime c₀ caller c := by
  have hbusy : c.agenda.ready ≠ [] := List.ne_nil_of_mem h.ready
  have htold (time : Nat) (e : LinkError) : ToldAt c₀ caller time e c :=
    ⟨.inl h.finished, fun _ => h.finished, fun _ hidle => absurd hidle hbusy⟩
  refine ⟨?_, fun hidle => absurd hidle hbusy, fun hidle => absurd hidle hbusy, h.notices,
    fun m _ _ => htold _ _, fun _ => htold _ _⟩
  rw [h.history]
  exact .asked h.now

theorem Travels.rests (h : Travels c₀ caller c) (hidle : c.agenda.ready = []) {k : Nat}
    (hallows : c₀.policy.Allows (k + 1)) (hsince : c₀.agenda.now + c₀.policy.due k ≤ c.agenda.now)
    (huntil : c.agenda.now < c₀.agenda.now + c₀.policy.due (k + 1)) :
    c.history = resting c₀.policy c₀.library.refusal c₀.agenda.now k := by
  obtain ⟨j, -, hsince', huntil', hhistory⟩ | ⟨m, hmax, hsince', -⟩ := h.leg.of_idle hidle
  · obtain hlt | rfl | hgt := Nat.lt_trichotomy j k
    · have hdue : c₀.policy.due (j + 1) ≤ c₀.policy.due k := c₀.policy.due_mono hlt
      omega
    · exact hhistory
    · have hdue : c₀.policy.due (k + 1) ≤ c₀.policy.due j := c₀.policy.due_mono hgt
      omega
  · have hdue := c₀.policy.due_mono (hallows m hmax)
    omega

/-- When it is time to give up and nobody is ready, the link is given up and the caller knows. -/
theorem Travels.givesUp (h : Travels c₀ caller c) (hidle : c.agenda.ready = []) {m : Nat}
    (hmax : c₀.policy.maxAttempts = some m)
    (hsince : c₀.agenda.now + c₀.policy.due m ≤ c.agenda.now) :
    c.history = givenUp c₀.policy c₀.library.refusal c₀.agenda.now m ∧ c.supervisor = none := by
  obtain ⟨j, hallows, -, huntil, -⟩ | ⟨m', hmax', -, hhistory, hsupervisor⟩ := h.leg.of_idle hidle
  · have hdue := c₀.policy.due_mono (hallows m hmax)
    omega
  · obtain rfl := Option.some.inj (hmax.symm.trans hmax')
    exact ⟨hhistory, hsupervisor⟩

theorem Travels.refused (h : Travels c₀ caller c) {m : Nat}
    (hmax : c₀.policy.maxAttempts = some m) (hdue : c₀.policy.due m < connectWaitMs) :
    ToldAt c₀ caller (c₀.agenda.now + c₀.policy.due m)
      (.permanentlyDisconnected (tooManyAttempts m)) c := by
  cases h.call with
  | waits _ hfinished _ hlooks =>
    refine ⟨.inl hfinished, fun _ => hfinished, fun hsince hidle => ?_⟩
    have hready := hlooks (h.givesUp hidle hmax hsince).2
    exact absurd hidle (List.ne_nil_of_mem hready)
  | told e _ hfinished hverdict =>
    cases hverdict with
    | gaveUp m' hmax' _ hnow =>
      obtain rfl := Option.some.inj (hmax.symm.trans hmax')
      exact ⟨.inr hfinished, fun hearly => absurd hearly (Nat.not_lt.2 hnow),
        fun _ _ => hfinished⟩
    | tookTooLong _ hlong => exact absurd hdue (Nat.not_lt.2 (hlong m hmax))

theorem Travels.timedOut (h : Travels c₀ caller c)
    (hlong : ∀ m, c₀.policy.maxAttempts = some m → connectWaitMs < c₀.policy.due m) :
    ToldAt c₀ caller (c₀.agenda.now + connectWaitMs) (.connectionFailed noConfirmation) c := by
  cases h.call with
  | waits _ hfinished hawaits _ =>
    exact ⟨.inl hfinished, fun _ => hfinished, fun hsince hidle =>
      absurd (hawaits.lt_of_idle hidle) (Nat.not_lt.2 hsince)⟩
  | told e _ hfinished hverdict =>
    cases hverdict with
    | gaveUp m hmax hdue => exact absurd hdue (Nat.not_le.2 (hlong m hmax))
    | tookTooLong hnow =>
      exact ⟨.inr hfinished, fun hearly => absurd hearly (Nat.not_lt.2 hnow),
        fun _ _ => hfinished⟩

theorem Course.onTime (h : Course c₀ caller c) (hnew : c₀.IsNew) : OnTime c₀ caller c := by
  cases h.onCourse hnew with
  | asked h => exact h.onTime
  | travels h =>
    exact ⟨h.leg.whereabouts, fun hidle k => h.rests hidle,
      fun hidle m hmax hsince => (h.givesUp hidle hmax hsince).1, h.notices, fun m => h.refused,
      h.timedOut⟩

/-- A new client that is told to connect, and whose attempts all fail, keeps to the timetable, in
whichever order turns are taken. Unless it makes attempts for ever without a delay, its turns come to
an end at every moment, time passes, and who waits in the foreground gets the answer at the first
moment at which there is one. -/
theorem connect_keeps_to_timetable (hnew : c₀.IsNew) (caller : Caller) :
    Course c₀ caller (c₀.ask caller .connect) ∧
      (∀ c, Course c₀ caller c → OnTime c₀ caller c) ∧
      (c₀.policy.maxAttempts.isSome ∨ 0 < c₀.policy.sustained →
        ToldInTime c₀ none (c₀.ask none .connect) ∧
          ∀ c, Course c₀ caller c →
            (Course c₀ caller (Timed.settle c) ∧ (Timed.settle c).agenda.ready = [] ∧
              (Timed.settle c).agenda.now = c.agenda.now) ∧
            ∀ ms, Course c₀ caller (Timed.pass ms c) ∧ (Timed.pass ms c).agenda.ready = [] ∧
              (Timed.pass ms c).agenda.now = c.agenda.now + ms) :=
  ⟨course_ask hnew caller, fun _ h => h.onTime hnew, fun hpauses =>
    ⟨toldInTime_ask hnew hpauses, fun _ h => ⟨h.settle hnew hpauses, h.pass_time hnew hpauses⟩⟩⟩

/-- Two attempts are made again, after 100 and after 50 milliseconds. -/
theorem connect_keeps_to_timetable_twice :
    ∃ c₀, create {} {} { url := "mqtt://127.0.0.1", clientId := "gateway", account := "account" }
        { maxAttempts := some 2, pattern := [100], sustained := 50 } = .ok c₀ ∧
      c₀.IsNew ∧ ∃ c, Course c₀ (some "caller") c ∧
        c.history = [(150, .permanentlyDisconnected (tooManyAttempts 2)),
          (150, .disconnected "Connection refused"), (150, .connecting),
          (100, .reconnecting 2), (100, .disconnected "Connection refused"), (100, .connecting),
          (0, .reconnecting 1), (0, .disconnected "Connection refused"), (0, .connecting)] ∧
        c.finished = [(some "caller", .error (.permanentlyDisconnected (tooManyAttempts 2)))] := by
  have hcreate : create {} {}
      { url := "mqtt://127.0.0.1", clientId := "gateway", account := "account" }
      { maxAttempts := some 2, pattern := [100], sustained := 50 } = .ok _ := rfl
  have hnew := isNew_of_createWith hcreate
  obtain ⟨hasked, honTime, hruns⟩ := connect_keeps_to_timetable hnew (some "caller")
  obtain ⟨hcourse, hidle, hnow⟩ := ((hruns (.inl rfl)).2 _ hasked).2 150
  have hsince := Nat.le_of_eq hnow.symm
  exact ⟨_, hcreate, hnew, _, hcourse, (honTime _ hcourse).givesUp hidle 2 rfl hsince,
    ((honTime _ hcourse).refused 2 rfl (by decide)).late hsince hidle⟩

end Uplink.Link.Client
