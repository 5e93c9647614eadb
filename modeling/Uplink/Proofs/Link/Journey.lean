import Uplink.Proofs.Link.Attempts

/-!
# The first call to connect

A client is told to connect, and its broker cannot be reached. From the policy alone follows at which
moment the link is in which state, when the supervisor gives up, and what the caller is told at last.
-/

namespace Uplink.Link.Client

/-! ## 1. Courses -/

/-- A client that was never told to connect, and of which nothing is asked. -/
structure IsNew (c : Client) : Prop where
  history : c.history = []
  supervisor : c.supervisor = none
  placeTaken : c.placeTaken = false
  calls : c.calls = []
  ahead : ∀ e ∈ c.agenda.alarms, c.agenda.now < e.1

theorem isNew_of_createWith {library : Library} {env : Environment} {options : Options}
    {broker : BrokerSection} {policy : Policy} {c : Client}
    (h : createWith library env options broker policy = .ok c) : c.IsNew := by
  obtain rfl := eq_of_createWith h
  exact ⟨rfl, rfl, rfl, rfl, nofun⟩

/-- What can become of a client that is told to connect. Those who are ready take turns in any order,
time does not pass while anybody is ready, and listeners come and go. -/
inductive Course (c₀ : Client) (caller : Caller) : Client → Prop where
  | asked {agenda : Agenda Strand} (hnow : agenda.now = c₀.agenda.now)
    (halarms : agenda.alarms = c₀.agenda.alarms) (hready : .call caller ∈ agenda.ready) :
    Course c₀ caller ({ c₀ with agenda }.hold caller (.opening .connect))
  | turn {c : Client} (h : Course c₀ caller c) {strand : Strand} {agenda : Agenda Strand}
    (hturn : Agenda.TurnOf strand c.agenda agenda) :
    Course c₀ caller ({ c with agenda }.turn strand)
  | pass {c : Client} (h : Course c₀ caller c) {agenda : Agenda Strand}
    (hpass : c.agenda.Passes agenda) : Course c₀ caller { c with agenda }
  /-- Somebody else is in the foreground. -/
  | attend {c : Client} (h : Course c₀ caller c) (foreground : Option Strand) (yielded : Nat) :
    Course c₀ caller { c with agenda := { c.agenda with foreground, yielded } }
  | listen {c : Client} (h : Course c₀ caller c) (listening : Bool) :
    Course c₀ caller { c with listening }

/-! ## 2. Where a client is on its course -/

/-- The call has not had its first turn. -/
structure Asked (c₀ : Client) (caller : Caller) (c : Client) : Prop where
  history : c.history = []
  supervisor : c.supervisor = none
  placeTaken : c.placeTaken = false
  policy : c.policy = c₀.policy
  library : c.library = c₀.library
  notices : c.notices = c₀.notices
  finished : c.finished = c₀.finished
  calls : c.calls = [(caller, .opening .connect)]
  now : c.agenda.now = c₀.agenda.now
  ready : .call caller ∈ c.agenda.ready
  ahead : ∀ e ∈ c.agenda.alarms, c.agenda.now < e.1

/-- Where a link is whose attempts began at a time. -/
inductive Leg (p : Policy) (cause : String) (start : Nat) (c : Client) : Prop where
  /-- An attempt is about to be made. -/
  | tries (k : Nat) (hallows : p.Allows k) (hnow : c.agenda.now = start + p.due k)
    (hhistory : c.history = trying p cause start k) (hsupervisor : c.supervisor = some ⟨k, none⟩)
    (hready : .supervisor ∈ c.agenda.ready)
  /-- The next attempt has a delay. -/
  | rests (k : Nat) (hallows : p.Allows (k + 1)) (hsince : start + p.due k ≤ c.agenda.now)
    (hhistory : c.history = resting p cause start k)
    (hsupervisor : c.supervisor = some ⟨k + 1, some (start + p.due (k + 1))⟩)
    (hawaits : c.agenda.Awaits .supervisor (start + p.due (k + 1)))
  /-- No more attempts are made. -/
  | ended (m : Nat) (hmax : p.maxAttempts = some m) (hsince : start + p.due m ≤ c.agenda.now)
    (hhistory : c.history = givenUp p cause start m) (hsupervisor : c.supervisor = none)

/-- What a caller may be told who has waited for the link from one time to another. -/
inductive Verdict (p : Policy) (start now : Nat) : LinkError → Prop where
  | gaveUp (m : Nat) (hmax : p.maxAttempts = some m) (hdue : p.due m ≤ connectWaitMs)
    (hnow : start + p.due m ≤ now) :
    Verdict p start now (.permanentlyDisconnected (tooManyAttempts m))
  | tookTooLong (hnow : start + connectWaitMs ≤ now)
    (hdue : ∀ m, p.maxAttempts = some m → connectWaitMs ≤ p.due m) :
    Verdict p start now (.connectionFailed noConfirmation)

/-- The caller waits for the link, or has been told that it does not come. -/
inductive Calling (c₀ : Client) (caller : Caller) (c : Client) : Prop where
  | waits (hcalls : c.calls = [(caller, .connecting (c₀.agenda.now + connectWaitMs))])
    (hfinished : c.finished = c₀.finished)
    (hawaits : c.agenda.Awaits (.call caller) (c₀.agenda.now + connectWaitMs))
    (hlooks : c.supervisor = none → .call caller ∈ c.agenda.ready)
  | told (e : LinkError) (hcalls : c.calls = [])
    (hfinished : c.finished = c₀.finished ++ [(caller, .error e)])
    (hverdict : Verdict c₀.policy c₀.agenda.now c.agenda.now e)

structure Travels (c₀ : Client) (caller : Caller) (c : Client) : Prop where
  policy : c.policy = c₀.policy
  library : c.library = c₀.library
  session : c.session = true
  placeTaken : c.placeTaken = true
  staying : c.leaving = false
  notices : c.notices = c₀.notices
  ahead : ∀ e ∈ c.agenda.alarms, c.agenda.now < e.1
  leg : Leg c₀.policy c₀.library.refusal c₀.agenda.now c
  call : Calling c₀ caller c

/-- Where a client is on its course. -/
inductive OnCourse (c₀ : Client) (caller : Caller) (c : Client) : Prop where
  | asked (h : Asked c₀ caller c)
  | travels (h : Travels c₀ caller c)

/-! ## 3. What is left to do -/

/-- How many turns of the supervisor are left that change something, if the link is not taken up more
often than `most` times. -/
def attemptsLeft (most : Nat) (c : Client) : Nat :=
  if c.placeTaken then
    match c.supervisor with
    | none => 0
    | some ⟨k, none⟩ => 2 * (most - k) + 1
    | some ⟨k, some _⟩ => 2 * (most + 1 - k)
  else 2 * (most + 1)

/-- How much there is left to do: turns that change something, alarms that have to ring, and turns
that are due. -/
def effort (most : Nat) (c : Client) : Nat :=
  -- An attempt may set an alarm, and wake the caller and the supervisor.
  4 * c.attemptsLeft most + 2 * c.agenda.alarms.length + c.agenda.ready.length

/-- A turn leads a client on, and leaves less to do than there was. -/
structure Progress (c₀ : Client) (caller : Caller) (c next : Client) : Prop where
  onCourse : OnCourse c₀ caller next
  now : next.agenda.now = c.agenda.now
  effort_lt : ∀ most, (∀ k, c₀.policy.Allows k →
    c₀.agenda.now + c₀.policy.due k ≤ c.agenda.now → k ≤ most) → next.effort most < c.effort most

section

variable {c₀ c next : Client} {caller : Caller} {strand : Strand} {agenda : Agenda Strand}

theorem effort_lt_of_turn (hturn : Agenda.TurnOf strand c.agenda agenda) (most : Nat) :
    { c with agenda }.effort most < c.effort most := by
  have hlength := hturn.length
  rw [effort, effort, attemptsLeft, attemptsLeft, hturn.alarms]
  dsimp only
  omega

/-! ## 4. The turns of the supervisor -/

theorem Calling.endSupervisor_eq (h : Calling c₀ caller c) (history : List (Nat × State)) :
    { c with history }.endSupervisor =
      { c with history, supervisor := none, agenda := c.agenda.silence .supervisor } := by
  have hnobody : c.calls.filter (·.2.awaitsSupervisor) = [] := by
    cases h with
    | waits hcalls => rw [hcalls]; rfl
    | told _ hcalls => rw [hcalls]; rfl
  rw [endSupervisor, wakeCallers]
  dsimp only
  rw [hnobody]
  rfl

/-- What the supervisor does makes no difference to the caller, who must only see it when it comes to
an end. -/
theorem Calling.of_supervisor (h : Calling c₀ caller c) (hcalls : next.calls = c.calls)
    (hfinished : next.finished = c.finished) (hnow : next.agenda.now = c.agenda.now)
    (halarms : ∀ e ∈ c.agenda.alarms, e.2 ≠ .supervisor → e ∈ next.agenda.alarms)
    (hready : ∀ s ∈ c.agenda.ready, s ≠ .supervisor → s ∈ next.agenda.ready)
    (hlooks : ∀ deadline, (caller, .connecting deadline) ∈ c.calls → next.supervisor = none →
      .call caller ∈ next.agenda.ready) : Calling c₀ caller next := by
  cases h with
  | waits hwaits htold hawaits =>
    refine .waits (hcalls.trans hwaits) (hfinished.trans htold)
      (hawaits.of_subset hnow (fun halarm => halarms _ halarm nofun) fun hmem =>
        hready _ hmem nofun) (hlooks (c₀.agenda.now + connectWaitMs) ?_)
    rw [hwaits]
    exact List.mem_singleton.2 rfl
  | told e hnobody htold hverdict =>
    exact .told e (hcalls.trans hnobody) (hfinished.trans htold) (hnow ▸ hverdict)

/-- One strand at most is woken to look at the link. -/
theorem Calling.length_alert_le (h : Calling c₀ caller c) :
    c.alert.agenda.ready.length ≤ c.agenda.ready.length + 1 := by
  refine Agenda.length_ready_wakeAll_le_one (k := .call caller) (fun other hother => ?_) c.agenda
  obtain ⟨e, he, rfl⟩ := List.mem_map.1 hother
  have hmem := (List.mem_filter.1 he).1
  cases h with
  | waits hcalls =>
    rw [hcalls, List.mem_singleton] at hmem
    rw [hmem]
  | told _ hcalls =>
    rw [hcalls] at hmem
    cases hmem

theorem Calling.of_turn (h : Calling c₀ caller c) (hturn : Agenda.TurnOf strand c.agenda agenda)
    (hne : strand ≠ .call caller) : Calling c₀ caller { c with agenda } := by
  cases h with
  | waits hcalls hfinished hawaits hlooks =>
    exact .waits hcalls hfinished (hawaits.of_turn hturn hne.symm) fun hnone =>
      hturn.others _ (hlooks hnone) hne.symm
  | told e hcalls hfinished hverdict =>
    exact .told e hcalls hfinished (by rw [hturn.now]; exact hverdict)

/-- The turn of the supervisor has begun, and all who wait for the link are about to look at it. -/
structure Begins (c₀ : Client) (caller : Caller) (c begun : Client) : Prop where
  policy : begun.policy = c₀.policy
  library : begun.library = c₀.library
  session : begun.session = true
  placeTaken : begun.placeTaken = true
  staying : begun.leaving = false
  notices : begun.notices = c₀.notices
  now : begun.agenda.now = c.agenda.now
  ahead : ∀ e ∈ begun.agenda.alarms, begun.agenda.now < e.1
  call : Calling c₀ caller begun
  looks : ∀ deadline, (caller, .connecting deadline) ∈ begun.calls →
    .call caller ∈ begun.agenda.ready
  load_le : 2 * begun.agenda.alarms.length + begun.agenda.ready.length ≤
    2 * c.agenda.alarms.length + c.agenda.ready.length

theorem Travels.begins (h : Travels c₀ caller c)
    (hturn : Agenda.TurnOf .supervisor c.agenda agenda) :
    Begins c₀ caller c { c with agenda }.alert := by
  have hcall := h.call.of_turn hturn nofun
  have hnow := (alert_now { c with agenda }).trans hturn.now
  have halarms := (alert_alarms { c with agenda }).trans hturn.alarms
  have hload := hcall.length_alert_le
  have hlength := hturn.length
  refine ⟨h.policy, h.library, h.session, h.placeTaken, h.staying, h.notices, hnow, ?_, ?_,
    fun deadline hmem => mem_ready_alert hmem, ?_⟩
  · rw [halarms, hnow]
    exact h.ahead
  · exact hcall.of_supervisor rfl rfl (alert_now _) (fun e he _ => by rwa [alert_alarms])
      (fun s hs _ => subset_ready_alert _ hs) fun deadline hmem _ => mem_ready_alert hmem
  · rw [halarms]
    dsimp only at hload
    omega

/-- Whatever comes of the attempts that the supervisor makes, the client is on its course. -/
theorem Begins.travels {begun : Client} (h : Begins c₀ caller c begun) {k : Nat}
    (hnow : c.agenda.now = c₀.agenda.now + c₀.policy.due k)
    (hdone : Attempted c₀.policy c₀.library.refusal c₀.agenda.now k begun next) :
    Travels c₀ caller next ∧ next.agenda.now = c.agenda.now := by
  have hmoment {j : Nat} (hdue : c₀.policy.due j = c₀.policy.due k) :
      begun.agenda.now = c₀.agenda.now + c₀.policy.due j := by
    rw [h.now, hnow, hdue]
  -- The supervisor rests until the next delay is over, gives up, or goes on in its next turn.
  cases hdone with
  | @rests j hle hdue hallows hdelay =>
    have hlater : begun.agenda.now < c₀.agenda.now + c₀.policy.due (j + 1) := by
      rw [hmoment hdue, Policy.due]
      omega
    refine ⟨⟨h.policy, h.library, h.session, h.placeTaken, h.staying, h.notices,
      fun e he => ?_, ?_, ?_⟩, h.now⟩
    · rcases List.mem_append.1 he with he | he
      · exact h.ahead e he
      · rw [List.mem_singleton.1 he]
        exact hlater
    · exact .rests j hallows (Nat.le_of_eq (hmoment hdue).symm) rfl rfl
        (.running hlater (List.mem_append_right _ (List.mem_singleton.2 rfl)))
    · exact h.call.of_supervisor rfl rfl rfl (fun e he _ => List.mem_append_left _ he)
        (fun s hs _ => hs) fun _ _ hnone => by cases hnone
  | @givesUp j hle hdue hmax =>
    rw [h.call.endSupervisor_eq]
    refine ⟨⟨h.policy, h.library, h.session, h.placeTaken, h.staying, h.notices,
      fun e he => ?_, ?_, ?_⟩, h.now⟩
    · exact h.ahead e (List.mem_filter.1 he).1
    · exact .ended j hmax (Nat.le_of_eq (hmoment hdue).symm) rfl rfl
    · -- The caller sees that there is nothing to wait for.
      exact h.call.of_supervisor rfl rfl rfl
        (fun e he hne => List.mem_filter.2 ⟨he, by simpa using hne⟩) (fun s hs _ => hs)
        fun deadline hmem _ => h.looks deadline hmem
  | @pauses j hlt hdue hallows =>
    rw [Agenda.wake_eq]
    refine ⟨⟨h.policy, h.library, h.session, h.placeTaken, h.staying, h.notices, h.ahead,
      ?_, ?_⟩, h.now⟩
    · exact .tries j hallows (hmoment hdue) rfl rfl (Agenda.mem_ready_wake.2 (.inr rfl))
    · exact h.call.of_supervisor rfl rfl rfl (fun e he _ => he)
        (fun s hs _ => Agenda.mem_ready_wake.2 (.inl hs)) fun _ _ hnone => by cases hnone

/-- An alarm may be set or the supervisor woken, but there are fewer attempts left. -/
theorem Begins.effort_le {begun : Client} (h : Begins c₀ caller c begun) {k : Nat} (most : Nat)
    (hmost : ∀ j, c₀.policy.Allows j → c₀.policy.due j = c₀.policy.due k → j ≤ most)
    (hdone : Attempted c₀.policy c₀.library.refusal c₀.agenda.now k begun next) :
    next.effort most ≤
      8 * (most - k) + 2 * begun.agenda.alarms.length + begun.agenda.ready.length + 2 := by
  cases hdone with
  | @rests j hle =>
    rw [effort, attemptsLeft, if_pos (by exact h.placeTaken), Agenda.alarm, List.length_append,
      List.length_singleton]
    dsimp only
    omega
  | @givesUp j =>
    have hfewer := List.length_filter_le (fun e : Nat × Strand => e.2 != .supervisor)
      begun.agenda.alarms
    rw [h.call.endSupervisor_eq, effort, attemptsLeft, if_pos (by exact h.placeTaken),
      Agenda.silence]
    dsimp only
    omega
  | @pauses j hlt hdue hallows =>
    have hj := hmost j hallows hdue
    have hwake := Agenda.length_ready_wake_le .supervisor begun.agenda
    rw [effort, attemptsLeft, if_pos (by exact h.placeTaken), Agenda.wake_eq]
    dsimp only
    omega

theorem Travels.progress_of_attempted (h : Travels c₀ caller c)
    (hturn : Agenda.TurnOf .supervisor c.agenda agenda) {k : Nat}
    (hnow : c.agenda.now = c₀.agenda.now + c₀.policy.due k) (hallows : c₀.policy.Allows k)
    (hleft : ∀ most, k ≤ most → 2 * (most - k) < c.attemptsLeft most)
    (hdone : Attempted c₀.policy c₀.library.refusal c₀.agenda.now k { c with agenda }.alert next) :
    Progress c₀ caller c next := by
  have hbegins := h.begins hturn
  obtain ⟨htravels, hsame⟩ := hbegins.travels hnow hdone
  refine ⟨.travels htravels, hsame, fun most hmost => ?_⟩
  have hless := hleft most (hmost k hallows (Nat.le_of_eq hnow.symm))
  have hload := hbegins.load_le
  have hle := hbegins.effort_le most
    (fun j hallows' hdue => hmost j hallows' (by rw [hdue]; exact Nat.le_of_eq hnow.symm)) hdone
  show _ < 4 * c.attemptsLeft most + 2 * c.agenda.alarms.length + c.agenda.ready.length
  omega

theorem Leg.of_caller {p : Policy} {cause : String} {start : Nat} (h : Leg p cause start c)
    (hhistory : next.history = c.history) (hsupervisor : next.supervisor = c.supervisor)
    (hnow : next.agenda.now = c.agenda.now)
    (halarms : ∀ e ∈ c.agenda.alarms, e.2 = .supervisor → e ∈ next.agenda.alarms)
    (hready : .supervisor ∈ c.agenda.ready → .supervisor ∈ next.agenda.ready) :
    Leg p cause start next := by
  cases h with
  | tries k hallows hmoment htrying hfirst hdue =>
    exact .tries k hallows (hnow.trans hmoment) (hhistory.trans htrying)
      (hsupervisor.trans hfirst) (hready hdue)
  | rests k hallows hsince hresting hnext hawaits =>
    exact .rests k hallows (by rwa [hnow]) (hhistory.trans hresting) (hsupervisor.trans hnext)
      (hawaits.of_subset hnow (fun halarm => halarms _ halarm rfl) hready)
  | ended m hmax hsince hgone hnone =>
    exact .ended m hmax (by rwa [hnow]) (hhistory.trans hgone) (hsupervisor.trans hnone)

theorem Travels.progress_of_idle (h : Travels c₀ caller c)
    (hturn : Agenda.TurnOf strand c.agenda agenda)
    (hleg : Leg c₀.policy c₀.library.refusal c₀.agenda.now { c with agenda })
    (hcall : Calling c₀ caller { c with agenda }) : Progress c₀ caller c { c with agenda } := by
  refine ⟨.travels ⟨h.policy, h.library, h.session, h.placeTaken, h.staying, h.notices, ?_, hleg,
    hcall⟩, hturn.now, fun most _ => effort_lt_of_turn hturn most⟩
  rw [hturn.alarms, hturn.now]
  exact h.ahead

theorem Travels.supervise (h : Travels c₀ caller c)
    (hturn : Agenda.TurnOf .supervisor c.agenda agenda) :
    Progress c₀ caller c ({ c with agenda }.turn .supervisor) := by
  have hcall := h.call.of_turn hturn nofun
  have hleft (most : Nat) : c.attemptsLeft most = _ := if_pos h.placeTaken
  cases h.leg with
  | tries k hallows hnow hhistory hsupervisor hready =>
    have htrying : { c with agenda }.IsTrying c₀.policy c₀.library.refusal c₀.agenda.now k :=
      ⟨h.policy, congrArg _ h.library, h.staying, h.session, hallows, hturn.now.trans hnow,
        hhistory⟩
    refine h.progress_of_attempted hturn hnow hallows (fun most hmost => ?_)
      (htrying.supervise hsupervisor)
    rw [hleft, hsupervisor]
    exact Nat.lt_succ_self _
  | rests k hallows hsince hhistory hsupervisor hawaits =>
    -- The supervisor may have been woken for nothing.
    rcases Nat.lt_or_ge c.agenda.now (c₀.agenda.now + c₀.policy.due (k + 1)) with hlt | hle
    · have hsame : { c with agenda }.turn .supervisor = { c with agenda } := by
        rw [turn, Client.supervise]
        dsimp only
        rw [hsupervisor]
        exact if_pos (by rwa [hturn.now])
      rw [hsame]
      exact h.progress_of_idle hturn (.rests k hallows (by rwa [hturn.now]) hhistory hsupervisor
        (hawaits.of_early_turn hturn hlt)) hcall
    · have hnow := Nat.le_antisymm hawaits.now_le hle
      have htrying : { c with
          agenda
          history := trying c₀.policy c₀.library.refusal c₀.agenda.now (k + 1) }.IsTrying
          c₀.policy c₀.library.refusal c₀.agenda.now (k + 1) :=
        ⟨h.policy, congrArg _ h.library, h.staying, h.session, hallows, hturn.now.trans hnow, rfl⟩
      refine h.progress_of_attempted hturn hnow hallows (fun most hmost => ?_)
        (htrying.supervise_of_resting (c := { c with agenda }) hhistory hsupervisor)
      rw [hleft, hsupervisor]
      dsimp only
      omega
  | ended m hmax hsince hhistory hsupervisor =>
    have hsame : { c with agenda }.turn .supervisor = { c with agenda } := by
      rw [turn, Client.supervise]
      dsimp only
      rw [hsupervisor]
    rw [hsame]
    exact h.progress_of_idle hturn (.ended m hmax (by rwa [hturn.now]) hhistory hsupervisor) hcall

/-! ## 5. The turns of the caller -/

/-- What the caller sees: the link is given up, or it may still come. -/
theorem Leg.lookAtLink {p : Policy} {cause : String} {start : Nat} (h : Leg p cause start c)
    (caller : Caller) (deadline : Nat) :
    (∃ m, p.maxAttempts = some m ∧ start + p.due m ≤ c.agenda.now ∧
      c.lookAtLink caller deadline =
        c.finish caller (.error (.permanentlyDisconnected (tooManyAttempts m)))) ∨
    ∃ k, p.Allows k ∧ c.agenda.now ≤ start + p.due k ∧ c.supervisor ≠ none ∧
      c.lookAtLink caller deadline =
        if deadline ≤ c.agenda.now then c.finish caller (.error (.connectionFailed noConfirmation))
        else c := by
  rw [Client.lookAtLink, state]
  cases h with
  | tries k hallows hnow hhistory hsupervisor =>
    obtain ⟨before, hcons⟩ := trying_eq_cons p cause start k
    rw [hhistory, hcons, hsupervisor]
    exact .inr ⟨k, hallows, Nat.le_of_eq hnow, Option.some_ne_none _, rfl⟩
  | rests k hallows hsince hhistory hsupervisor hawaits =>
    rw [hhistory, resting, hsupervisor]
    exact .inr ⟨k + 1, hallows, hawaits.now_le, Option.some_ne_none _, rfl⟩
  | ended m hmax hsince hhistory =>
    rw [hhistory, givenUp]
    exact .inl ⟨m, hmax, hsince, rfl⟩

theorem Travels.progress_of_finish (h : Travels c₀ caller c)
    (hturn : Agenda.TurnOf (.call caller) c.agenda agenda)
    (hcalls : c.calls = [(caller, .connecting (c₀.agenda.now + connectWaitMs))])
    (hfinished : c.finished = c₀.finished) {e : LinkError}
    (hverdict : Verdict c₀.policy c₀.agenda.now c.agenda.now e) :
    Progress c₀ caller c ({ c with agenda }.finish caller (.error e)) := by
  refine ⟨.travels ⟨h.policy, h.library, h.session, h.placeTaken, h.staying, h.notices,
    fun e he => ?_, ?_, ?_⟩, hturn.now, fun most _ => ?_⟩
  · have hmem := (List.mem_filter.1 he).1
    rw [hturn.alarms] at hmem
    show agenda.now < e.1
    rw [hturn.now]
    exact h.ahead e hmem
  · refine h.leg.of_caller rfl rfl hturn.now (fun e he hsupervisor => ?_) fun hready =>
      hturn.others _ hready nofun
    refine List.mem_filter.2 ⟨hturn.alarms ▸ he, ?_⟩
    rw [hsupervisor]
    rfl
  · refine .told e ?_ ?_ ?_
    · show c.calls.filter _ = []
      rw [hcalls]
      simp
    · show c.finished ++ _ = _
      rw [hfinished]
    · show Verdict _ _ agenda.now e
      rw [hturn.now]
      exact hverdict
  · -- The caller is ready no more, and that is what there is less to do.
    have hlength := hturn.length
    have hfewer := List.length_filter_le (fun e : Nat × Strand => e.2 != .call caller)
      agenda.alarms
    rw [effort, effort, attemptsLeft, attemptsLeft, finish, Agenda.silence]
    rw [hturn.alarms] at hfewer ⊢
    dsimp only
    omega

theorem Travels.proceed (h : Travels c₀ caller c)
    (hturn : Agenda.TurnOf (.call caller) c.agenda agenda) :
    Progress c₀ caller c ({ c with agenda }.turn (.call caller)) := by
  have hleg : Leg c₀.policy c₀.library.refusal c₀.agenda.now { c with agenda } :=
    h.leg.of_caller rfl rfl hturn.now (fun e he _ => hturn.alarms ▸ he) fun hready =>
      hturn.others _ hready nofun
  rw [turn, Client.proceed]
  dsimp only
  cases h.call with
  | waits hcalls hfinished hawaits hlooks =>
    have hlookup : c.calls.lookup caller = some (.connecting (c₀.agenda.now + connectWaitMs)) := by
      rw [hcalls, List.lookup_cons, beq_self_eq_true]
    rw [hlookup]
    dsimp only
    have hdeadline := hawaits.now_le
    -- The supervisor gave up, or the caller goes on waiting until its own time is up.
    obtain ⟨m, hmax, hsince, hlook⟩ | ⟨k, hallows, huntil, hsome, hlook⟩ :=
      hleg.lookAtLink caller (c₀.agenda.now + connectWaitMs)
    · rw [hlook]
      dsimp only at hsince
      rw [hturn.now] at hsince
      exact h.progress_of_finish hturn hcalls hfinished (.gaveUp m hmax (by omega) hsince)
    · rw [hlook]
      dsimp only at huntil ⊢
      rw [hturn.now] at huntil ⊢
      split
      · next hle =>
        refine h.progress_of_finish hturn hcalls hfinished (.tookTooLong hle fun m hmax => ?_)
        have hdue := c₀.policy.due_mono (hallows m hmax)
        omega
      · next hlt =>
        exact h.progress_of_idle hturn hleg (.waits hcalls hfinished
          (hawaits.of_early_turn hturn (Nat.lt_of_not_le hlt)) fun hnone => absurd hnone hsome)
  | told e hcalls hfinished hverdict =>
    have hlookup : c.calls.lookup caller = none := by rw [hcalls]; rfl
    rw [hlookup]
    have htold : Calling c₀ caller { c with agenda } :=
      .told e hcalls hfinished (by rw [hturn.now]; exact hverdict)
    exact h.progress_of_idle hturn hleg htold

theorem Travels.turn (h : Travels c₀ caller c) (hturn : Agenda.TurnOf strand c.agenda agenda) :
    Progress c₀ caller c ({ c with agenda }.turn strand) := by
  cases strand with
  | supervisor => exact h.supervise hturn
  | call other =>
    by_cases hother : other = caller
    · subst hother
      exact h.proceed hturn
    · have hlookup : c.calls.lookup other = none := by
        cases h.call with
        | waits hcalls =>
          rw [hcalls, List.lookup_cons, beq_false_of_ne hother]
          rfl
        | told _ hcalls => rw [hcalls]; rfl
      have hsame : { c with agenda }.turn (.call other) = { c with agenda } := by
        rw [Client.turn, Client.proceed]
        dsimp only
        rw [hlookup]
      rw [hsame]
      refine h.progress_of_idle hturn ?_ (h.call.of_turn hturn (by simpa using hother))
      exact h.leg.of_caller rfl rfl hturn.now (fun e he _ => hturn.alarms ▸ he) fun hready =>
        hturn.others _ hready nofun

/-! ## 6. The first turn of the call -/

/-- The call begins: a supervisor is started, and the caller waits for the link. -/
theorem Asked.connect (h : Asked c₀ caller c)
    (hturn : Agenda.TurnOf (.call caller) c.agenda agenda) :
    Progress c₀ caller c ({ c with agenda }.turn (.call caller)) := by
  have hnow : agenda.now = c₀.agenda.now := hturn.now.trans h.now
  have hlookup : c.calls.lookup caller = some (.opening .connect) := by
    rw [h.calls, List.lookup_cons, beq_self_eq_true]
  -- Nobody waits for the link yet.
  have halert : { c with agenda }.alert = { c with agenda } := by
    rw [alert, wakeCallers]
    dsimp only
    rw [h.calls]
    rfl
  rw [Client.turn, Client.proceed]
  dsimp only
  rw [hlookup]
  dsimp only
  rw [connect_of_free (by exact h.placeTaken), halert, hold]
  dsimp only
  rw [h.history, h.calls, hnow, Agenda.wake_eq]
  have hahead : ∀ e ∈ agenda.alarms, agenda.now < e.1 := by
    rw [hturn.alarms, hturn.now]
    exact h.ahead
  have hlater : agenda.now < c₀.agenda.now + connectWaitMs := by
    rw [hnow, connectWaitMs]
    omega
  refine ⟨.travels ⟨h.policy, h.library, rfl, rfl, rfl, h.notices, fun e he => ?_, ?_, ?_⟩,
    hturn.now, fun most _ => ?_⟩
  · rcases List.mem_append.1 he with he | he
    · exact hahead e he
    · rw [List.mem_singleton.1 he]
      exact hlater
  · exact .tries 0 (fun m _ => Nat.zero_le m) hnow rfl rfl (Agenda.mem_ready_wake.2 (.inr rfl))
  · refine .waits ?_ h.finished (.running hlater ?_) fun hgone =>
      absurd hgone (Option.some_ne_none _)
    · simp
    · exact List.mem_append_right _ (List.mem_singleton.2 rfl)
  · have hlength := hturn.length
    have hwake := Agenda.length_ready_wake_le .supervisor agenda
    have hbefore : c.attemptsLeft most = 2 * (most + 1) :=
      if_neg (by rw [h.placeTaken]; exact Bool.false_ne_true)
    rw [effort, effort, hbefore, attemptsLeft, if_pos rfl, Agenda.alarm, List.length_append,
      hturn.alarms, List.length_singleton]
    dsimp only
    omega

theorem Asked.turn (h : Asked c₀ caller c) (hturn : Agenda.TurnOf strand c.agenda agenda) :
    Progress c₀ caller c ({ c with agenda }.turn strand) := by
  by_cases hcaller : strand = .call caller
  · subst hcaller
    exact h.connect hturn
  · have hsame : { c with agenda }.turn strand = { c with agenda } := by
      cases strand with
      | supervisor =>
        rw [Client.turn, Client.supervise]
        dsimp only
        rw [h.supervisor]
      | call other =>
        have hlookup : c.calls.lookup other = none := by
          rw [h.calls, List.lookup_cons, beq_false_of_ne (by simpa using hcaller)]
          rfl
        rw [Client.turn, Client.proceed]
        dsimp only
        rw [hlookup]
    rw [hsame]
    refine ⟨.asked ⟨h.history, h.supervisor, h.placeTaken, h.policy, h.library, h.notices,
      h.finished, h.calls, hturn.now.trans h.now, hturn.others _ h.ready (Ne.symm hcaller), ?_⟩,
      hturn.now, fun most _ => effort_lt_of_turn hturn most⟩
    rw [hturn.alarms, hturn.now]
    exact h.ahead

/-! ## 7. Courses are as planned -/

theorem IsNew.asked (h : c₀.IsNew) (hnow : agenda.now = c₀.agenda.now)
    (halarms : agenda.alarms = c₀.agenda.alarms) (hready : .call caller ∈ agenda.ready) :
    Asked c₀ caller ({ c₀ with agenda }.hold caller (.opening .connect)) := by
  refine ⟨h.history, h.supervisor, h.placeTaken, rfl, rfl, rfl, rfl, ?_, hnow, hready, ?_⟩
  · rw [hold, h.calls]
    rfl
  · show ∀ e ∈ agenda.alarms, agenda.now < e.1
    rw [halarms, hnow]
    exact h.ahead

theorem Verdict.mono {p : Policy} {start now later : Nat} {e : LinkError}
    (h : Verdict p start now e) (hle : now ≤ later) : Verdict p start later e := by
  cases h with
  | gaveUp m hmax hdue hnow => exact .gaveUp m hmax hdue (Nat.le_trans hnow hle)
  | tookTooLong hnow hdue => exact .tookTooLong (Nat.le_trans hnow hle) hdue

theorem Leg.pass {p : Policy} {cause : String} {start : Nat} (h : Leg p cause start c)
    (hpass : c.agenda.Passes agenda) : Leg p cause start { c with agenda } := by
  cases h with
  | tries _ _ _ _ _ hready => exact absurd hpass.idle (List.ne_nil_of_mem hready)
  | rests k hallows hsince hhistory hsupervisor hawaits =>
    exact .rests k hallows (Nat.le_trans hsince hpass.now_le) hhistory hsupervisor
      (hawaits.of_pass hpass)
  | ended m hmax hsince hhistory hsupervisor =>
    exact .ended m hmax (Nat.le_trans hsince hpass.now_le) hhistory hsupervisor

theorem Calling.pass (h : Calling c₀ caller c) (hpass : c.agenda.Passes agenda) :
    Calling c₀ caller { c with agenda } := by
  cases h with
  | waits hcalls hfinished hawaits hlooks =>
    exact .waits hcalls hfinished (hawaits.of_pass hpass) fun hnone =>
      absurd hpass.idle (List.ne_nil_of_mem (hlooks hnone))
  | told e hcalls hfinished hverdict =>
    exact .told e hcalls hfinished (hverdict.mono hpass.now_le)

theorem OnCourse.turn (h : OnCourse c₀ caller c) (hturn : Agenda.TurnOf strand c.agenda agenda) :
    Progress c₀ caller c ({ c with agenda }.turn strand) := by
  cases h with
  | asked h => exact h.turn hturn
  | travels h => exact h.turn hturn

theorem OnCourse.pass (h : OnCourse c₀ caller c) (hpass : c.agenda.Passes agenda) :
    OnCourse c₀ caller { c with agenda } := by
  cases h with
  | asked h => exact absurd hpass.idle (List.ne_nil_of_mem h.ready)
  | travels h =>
    exact .travels ⟨h.policy, h.library, h.session, h.placeTaken, h.staying, h.notices, hpass.ahead,
      h.leg.pass hpass, h.call.pass hpass⟩

theorem OnCourse.ahead (h : OnCourse c₀ caller c) : ∀ e ∈ c.agenda.alarms, c.agenda.now < e.1 := by
  cases h with
  | asked h => exact h.ahead
  | travels h => exact h.ahead

/-- Neither who is in the foreground nor who listens makes a difference. -/
theorem OnCourse.of_same (h : OnCourse c₀ caller c) (foreground : Option Strand) (yielded : Nat)
    (listening : Bool) :
    OnCourse c₀ caller { c with
      agenda := { c.agenda with foreground, yielded }
      listening } := by
  cases h with
  | asked h =>
    exact .asked ⟨h.history, h.supervisor, h.placeTaken, h.policy, h.library, h.notices,
      h.finished, h.calls, h.now, h.ready, h.ahead⟩
  | travels h =>
    refine .travels ⟨h.policy, h.library, h.session, h.placeTaken, h.staying, h.notices, h.ahead,
      h.leg.of_caller rfl rfl rfl (fun _ he _ => he) id, ?_⟩
    cases h.call with
    | waits hcalls hfinished hawaits hlooks =>
      exact .waits hcalls hfinished (hawaits.of_subset rfl id id) hlooks
    | told e hcalls hfinished hverdict => exact .told e hcalls hfinished hverdict

theorem Course.onCourse (h : Course c₀ caller c) (hnew : c₀.IsNew) : OnCourse c₀ caller c := by
  induction h with
  | asked hnow halarms hready => exact .asked (hnew.asked hnow halarms hready)
  | turn _ hturn ih => exact (ih.turn hturn).onCourse
  | pass _ hpass ih => exact ih.pass hpass
  | attend _ foreground yielded ih => exact ih.of_same foreground yielded _
  | listen _ listening ih => exact ih.of_same _ _ listening

end

end Uplink.Link.Client
