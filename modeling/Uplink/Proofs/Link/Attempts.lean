import Mathlib.Tactic.Ring
import Uplink.Link.Client
import Uplink.Proofs.Agenda

/-!
# Attempts that fail

When each attempt to connect is due follows from the policy alone, and so do the states that the link
goes through as long as every attempt fails at once. What a supervisor does in one turn is said here
once: it makes the attempt that is due, and those after it that have no delay, and then it waits for
the next one, or has come to an end.
-/

namespace Uplink.Link

/-! ## 1. Policies -/

namespace Policy

/-- When the link is taken up again for a number of times, counted from the first attempt: after as
many delays. -/
def due (p : Policy) : Nat → Nat
  | 0 => 0
  | k + 1 => p.due k + p.delay (k + 1)

/-- The delays of the pattern come first. -/
theorem due_eq (p : Policy) (k : Nat) :
    p.due k = (p.pattern.take k).sum + (k - p.pattern.length) * p.sustained := by
  induction k with
  | zero => simp [due]
  | succ k ih =>
    rw [due, ih, delay, Nat.add_sub_cancel, List.take_add_one, List.sum_append]
    by_cases hk : k < p.pattern.length
    · rw [List.getElem?_eq_getElem hk, Nat.sub_eq_zero_of_le (by omega : k ≤ _),
        Nat.sub_eq_zero_of_le (by omega : k + 1 ≤ _)]
      simp
    · rw [List.getElem?_eq_none (by omega), Nat.succ_sub (by omega : p.pattern.length ≤ k),
        Nat.succ_mul]
      simp [Nat.add_assoc]

theorem due_mono (p : Policy) {j k : Nat} (h : j ≤ k) : p.due j ≤ p.due k := by
  induction h with
  | refl => exact Nat.le_refl _
  | step _ ih => exact Nat.le_trans ih (Nat.le_add_right ..)

/-- So many times, and no more often than that, the link may be taken up again. -/
def Allows (p : Policy) (k : Nat) : Prop := ∀ m, p.maxAttempts = some m → k ≤ m

theorem isExhausted_eq_false_iff {p : Policy} {k : Nat} :
    p.isExhausted k = false ↔ p.Allows (k + 1) := by
  rw [isExhausted, Allows]
  cases p.maxAttempts with
  | none => simp
  | some m =>
    rw [decide_eq_false_iff_not, Nat.not_le]
    exact ⟨fun hlt _ hm => Option.some.inj hm ▸ hlt, fun h => h m rfl⟩

theorem eq_of_isExhausted {p : Policy} {k : Nat} (hallows : p.Allows k)
    (h : p.isExhausted k = true) : p.maxAttempts = some k := by
  rw [isExhausted] at h
  cases hmax : p.maxAttempts with
  | none => rw [hmax] at h; cases h
  | some m =>
    rw [hmax] at h
    rw [Nat.le_antisymm (hallows m hmax) (of_decide_eq_true h)]

/-- A policy under which a supervisor does not make attempts for ever without a delay. -/
def Pauses (p : Policy) : Prop := p.maxAttempts.isSome ∨ 0 < p.sustained

/-- How often the link is taken up again at most within a time. -/
def reach (p : Policy) (ms : Nat) : Nat := p.maxAttempts.getD (p.pattern.length + ms)

theorem le_reach {p : Policy} (h : p.Pauses) {k ms : Nat} (hallows : p.Allows k)
    (hdue : p.due k ≤ ms) : k ≤ p.reach ms := by
  rw [reach]
  cases hmax : p.maxAttempts with
  | some m => exact hallows m hmax
  | none =>
    have hpos : 0 < p.sustained := h.resolve_left (by simp [hmax])
    have hle : (k - p.pattern.length) * 1 ≤ (k - p.pattern.length) * p.sustained :=
      Nat.mul_le_mul_left _ hpos
    rw [due_eq] at hdue
    rw [Option.getD_none]
    omega

end Policy

/-! ## 2. Histories -/

section

variable (p : Policy) (cause : String) (start : Nat)

/-- The states of a link that is connecting and has been taken up again for a number of times, from
the last one on. Attempts all fail for one cause. -/
def trying : Nat → List (Nat × State)
  | 0 => [(start, .connecting)]
  | k + 1 => (start + p.due (k + 1), .connecting) :: (start + p.due k, .reconnecting (k + 1)) ::
      (start + p.due k, .disconnected cause) :: trying k

/-- The states of a link that waits to be taken up once more. -/
def resting (k : Nat) : List (Nat × State) :=
  (start + p.due k, .reconnecting (k + 1)) :: (start + p.due k, .disconnected cause) ::
    trying p cause start k

/-- The states of a link that is not taken up again any more. -/
def givenUp (k : Nat) : List (Nat × State) :=
  (start + p.due k, .permanentlyDisconnected (tooManyAttempts k)) ::
    (start + p.due k, .disconnected cause) :: trying p cause start k

theorem trying_succ (k : Nat) :
    trying p cause start (k + 1) =
      (start + p.due (k + 1), .connecting) :: resting p cause start k := rfl

theorem trying_eq_cons (k : Nat) :
    ∃ before, trying p cause start k = (start + p.due k, .connecting) :: before := by
  cases k with
  | zero => exact ⟨[], rfl⟩
  | succ k => exact ⟨resting p cause start k, rfl⟩

end

namespace Client

theorem eq_of_createWith {library : Library} {env : Environment} {options : Options}
    {broker : BrokerSection} {policy : Policy} {c : Client}
    (h : createWith library env options broker policy = .ok c) :
    c = { options, broker, policy, library } := by
  rw [createWith] at h
  cases hbroker : Broker.ofSection env broker with
  | error e => rw [hbroker] at h; cases h
  | ok b =>
    rw [hbroker] at h
    exact (Except.ok.inj h).symm

/-! ## 3. Who waits for the link -/

def alert (c : Client) : Client := c.wakeCallers Dialogue.awaitsLink

theorem alert_now (c : Client) : c.alert.agenda.now = c.agenda.now := by
  rw [alert, wakeCallers, Agenda.wakeAll_eq]

theorem alert_alarms (c : Client) : c.alert.agenda.alarms = c.agenda.alarms := by
  rw [alert, wakeCallers, Agenda.wakeAll_eq]

theorem subset_ready_alert (c : Client) : c.agenda.ready ⊆ c.alert.agenda.ready :=
  fun _ hmem => Agenda.mem_ready_wakeAll.2 (.inl hmem)

theorem enter_eq (s : State) (c : Client) :
    c.enter s = { c.alert with history := (c.agenda.now, s) :: c.history } := rfl

theorem mem_ready_alert {c : Client} {caller : Caller} {deadline : Nat}
    (h : (caller, .connecting deadline) ∈ c.calls) : .call caller ∈ c.alert.agenda.ready :=
  Agenda.mem_ready_wakeAll.2 (.inr (List.mem_map.2 ⟨_, List.mem_filter.2 ⟨h, rfl⟩, rfl⟩))

theorem alert_alert (c : Client) : c.alert.alert = c.alert := by
  have hawake : c.alert.agenda.wakeAll ((c.calls.filter (·.2.awaitsLink)).map (Strand.call ·.1)) =
      c.alert.agenda :=
    Agenda.wakeAll_of_subset fun k hk => Agenda.mem_ready_wakeAll.2 (.inr hk)
  rw [alert, wakeCallers]
  exact congrArg (fun a => { c.alert with agenda := a }) hawake

theorem alert_of_history {c : Client} (h : c.alert = c) (history : List (Nat × State)) :
    { c with history }.alert = { c with history } := by
  show { c.alert with history } = _
  rw [h]

/-- Those who look at the link anyway need not be told of its states. -/
theorem enter_of_alert {c : Client} (h : c.alert = c) (s : State) :
    c.enter s = { c with history := (c.agenda.now, s) :: c.history } := by
  rw [enter_eq, h]

/-! ## 4. What a supervisor does in one turn -/

/-- The link has been taken up again for a number of times, and the attempt that this is for is about
to be made. -/
structure IsTrying (p : Policy) (cause : String) (start k : Nat) (c : Client) : Prop where
  policy : c.policy = p
  refusal : c.library.refusal = cause
  staying : c.leaving = false
  session : c.session = true
  allows : p.Allows k
  now : c.agenda.now = start + p.due k
  history : c.history = trying p cause start k

/-- What becomes of a client when its supervisor makes that attempt, and those after it that have no
delay. -/
inductive Attempted (p : Policy) (cause : String) (start k : Nat) (c : Client) : Client → Prop where
  /-- The next attempt has a delay. -/
  | rests {j : Nat} (hle : k ≤ j) (hdue : p.due j = p.due k) (hallows : p.Allows (j + 1))
    (hdelay : 0 < p.delay (j + 1)) :
    Attempted p cause start k c { c with
      history := resting p cause start j
      supervisor := some ⟨j + 1, some (start + p.due (j + 1))⟩
      agenda := c.agenda.alarm (start + p.due (j + 1)) .supervisor }
  /-- There is no next attempt. -/
  | givesUp {j : Nat} (hle : k ≤ j) (hdue : p.due j = p.due k) (hmax : p.maxAttempts = some j) :
    Attempted p cause start k c { c with history := givenUp p cause start j }.endSupervisor
  /-- There are more attempts to make than it makes in one turn. -/
  | pauses {j : Nat} (hlt : k < j) (hdue : p.due j = p.due k) (hallows : p.Allows j) :
    Attempted p cause start k c { c with
      history := trying p cause start j
      supervisor := some ⟨j, none⟩
      agenda := c.agenda.wake .supervisor }

section

variable {p : Policy} {cause : String} {start j k : Nat} {c v : Client}

/-- It does not depend on the history that there was, and a later attempt at the same moment is as
good as the first one. -/
theorem Attempted.of_later {history : List (Nat × State)}
    (h : Attempted p cause start j { c with history } v) (hlater : k ≤ j)
    (hsame : p.due j = p.due k) :
    Attempted p cause start k c v := by
  cases h with
  | rests hle hdue hallows hdelay =>
    exact .rests (Nat.le_trans hlater hle) (hdue.trans hsame) hallows hdelay
  | givesUp hle hdue hmax => exact .givesUp (Nat.le_trans hlater hle) (hdue.trans hsame) hmax
  | pauses hlt hdue hallows =>
    exact .pauses (Nat.lt_of_le_of_lt hlater hlt) (hdue.trans hsame) hallows

theorem IsTrying.lose (h : c.IsTrying p cause start k) (halert : c.alert = c) (reason : String) :
    c.lose reason = { c with history := (start + p.due k, .disconnected reason) :: c.history } := by
  obtain ⟨before, hcons⟩ := trying_eq_cons p cause start k
  have hstate : c.state.canPublish = false := by
    rw [state, h.history, hcons]
    rfl
  rw [Client.lose, hstate, enter_of_alert halert, h.now]
  exact if_neg Bool.false_ne_true

/-- One attempt: if there is no delay after it, the next one follows. -/
theorem IsTrying.attempt_succ (h : c.IsTrying p cause start k) (halert : c.alert = c) (fuel : Nat) :
    Attempted p cause start k c (c.attempt k (fuel + 1)) ∨
      p.delay (k + 1) = 0 ∧
        { c with history := trying p cause start (k + 1) }.IsTrying p cause start (k + 1) ∧
        c.attempt k (fuel + 1) =
          { c with history := trying p cause start (k + 1) }.attempt (k + 1) fuel := by
  -- All who wait are about to look anyway, so that only the history changes when states are entered.
  have halert' := alert_of_history halert
  have hlost := h.lose halert c.library.refusal
  obtain ⟨rfl, rfl, hstaying, hsession, hallows, hnow, hhistory⟩ := h
  rw [attempt, if_neg (by rw [hstaying]; exact Bool.false_ne_true), hlost]
  dsimp only
  cases hexhausted : c.policy.isExhausted k with
  | true =>
    have hdecide : c.policy.decide k false = .attemptsExceeded := by
      rw [Policy.decide, if_neg Bool.false_ne_true, if_pos hexhausted]
    rw [hdecide]
    dsimp only
    rw [enter_of_alert (halert' _)]
    dsimp only
    rw [hnow, hhistory]
    exact .inl (.givesUp (Nat.le_refl k) rfl (Policy.eq_of_isExhausted hallows hexhausted))
  | false =>
    have hallows' := Policy.isExhausted_eq_false_iff.1 hexhausted
    have hdecide : c.policy.decide k false = .proceed (k + 1) (c.policy.delay (k + 1)) := by
      rw [Policy.decide, if_neg Bool.false_ne_true, hexhausted, if_neg Bool.false_ne_true]
    rw [hdecide]
    dsimp only
    rw [enter_of_alert (halert' _)]
    dsimp only
    rw [hnow, hhistory]
    split
    · next hzero =>
      have hdue : start + c.policy.due k = start + c.policy.due (k + 1) := by
        rw [Policy.due, hzero, Nat.add_zero]
      have hopen (history : List (Nat × State)) :
          { c with history, session := true } = { c with history } := by
        rw [← hsession]
      refine .inr ⟨hzero, ⟨rfl, rfl, hstaying, hsession, hallows', hnow.trans hdue, rfl⟩, ?_⟩
      rw [hopen, enter_of_alert (halert' _)]
      dsimp only
      rw [hnow, trying_succ, ← hdue]
      rfl
    · next hdelay =>
      rw [Nat.add_assoc]
      exact .inl (.rests (Nat.le_refl k) rfl hallows' (Nat.pos_of_ne_zero hdelay))

theorem IsTrying.attempt (h : c.IsTrying p cause start k) (halert : c.alert = c) (fuel : Nat) :
    Attempted p cause start k c (c.attempt k (fuel + 1)) := by
  -- The moment stays the same from one attempt to the next, and so does what is due at it.
  induction fuel generalizing c k with
  | zero =>
    rcases h.attempt_succ halert 0 with hdone | ⟨hzero, hnext, heq⟩
    · exact hdone
    · rw [heq, Client.attempt]
      exact .pauses (Nat.lt_succ_self k) (by rw [Policy.due, hzero, Nat.add_zero]) hnext.allows
  | succ fuel ih =>
    rcases h.attempt_succ halert (fuel + 1) with hdone | ⟨hzero, hnext, heq⟩
    · exact hdone
    · rw [heq]
      exact (ih hnext (alert_of_history halert _)).of_later (Nat.le_succ k)
        (by rw [Policy.due, hzero, Nat.add_zero])

theorem attempt_alert (c : Client) (k fuel : Nat) :
    c.alert.attempt k (fuel + 1) = c.attempt k (fuel + 1) := by
  have henter (s : State) : c.alert.enter s = c.enter s := by
    rw [enter_eq, enter_eq, alert_alert, alert_now]
    rfl
  have hlose (reason : String) : c.alert.lose reason = c.lose reason := by
    rw [Client.lose, henter]
    rfl
  rw [Client.attempt, Client.attempt, henter, hlose]
  rfl

theorem IsTrying.supervise (h : c.IsTrying p cause start k)
    (hsupervisor : c.supervisor = some ⟨k, none⟩) :
    Attempted p cause start k c.alert c.supervise := by
  have halert : c.alert.IsTrying p cause start k :=
    ⟨h.policy, h.refusal, h.staying, h.session, h.allows, (alert_now c).trans h.now, h.history⟩
  rw [Client.supervise, hsupervisor]
  dsimp only
  rw [attemptLimit, ← attempt_alert]
  exact halert.attempt (alert_alert c) _

theorem IsTrying.supervise_of_resting
    (h : { c with history := trying p cause start (k + 1) }.IsTrying p cause start (k + 1))
    (hhistory : c.history = resting p cause start k)
    (hsupervisor : c.supervisor = some ⟨k + 1, some (start + p.due (k + 1))⟩) :
    Attempted p cause start (k + 1) c.alert c.supervise := by
  have hnow : c.agenda.now = start + p.due (k + 1) := h.now
  have hopen : { c with session := true } = c := by
    have hsession : c.session = true := h.session
    rw [← hsession]
  have halert : { c.alert with history := trying p cause start (k + 1) }.IsTrying
      p cause start (k + 1) :=
    ⟨h.policy, h.refusal, h.staying, h.session, h.allows, (alert_now c).trans hnow, rfl⟩
  rw [Client.supervise, hopen, hsupervisor]
  dsimp only
  rw [if_neg (by omega), enter_eq, hnow, hhistory, ← trying_succ]
  exact (halert.attempt (alert_of_history (alert_alert c) _) _).of_later (Nat.le_refl _) rfl

end

/-! ## 5. The turn in which a call to connect begins -/

theorem connect_of_placeTaken {c : Client} (h : c.placeTaken = true) (caller : Caller) :
    c.connect caller = c.finish caller (.ok ()) := by
  rw [connect, if_pos h]

/-- Who finds the place of the supervisor free starts one, and waits. -/
theorem connect_of_free {c : Client} (h : c.placeTaken = false) (caller : Caller) :
    c.connect caller = { c.alert with
      session := true
      leaving := false
      history := (c.agenda.now, .connecting) :: c.history
      supervisor := some {}
      placeTaken := true
      agenda := (c.alert.agenda.wake Strand.supervisor).alarm (c.agenda.now + connectWaitMs)
        (.call caller) }.hold caller (.connecting (c.agenda.now + connectWaitMs)) := by
  have halert := alert_now { c with session := true, leaving := false }
  rw [connect, if_neg (by rw [h]; exact Bool.false_ne_true), enter_eq]
  dsimp only
  rw [halert, lookAtLink]
  refine if_neg ?_
  show ¬ c.agenda.now + connectWaitMs ≤ (Agenda.alarm _ _ (c.alert.agenda.wake _)).now
  rw [Agenda.alarm, Agenda.wake_eq]
  dsimp only
  rw [alert_now, connectWaitMs]
  omega

end Client

end Uplink.Link
