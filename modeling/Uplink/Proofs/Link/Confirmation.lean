import Mathlib.Data.List.Induction
import Uplink.Proofs.Link.Attempts

/-!
# What calls to connect are told of a link that is down

Calls to connect and to disconnect come at any time, and turns are taken in any order. As long as no
attempt succeeds, a call that has started a supervisor is never told that the link is up. Who finds
the place of the supervisor taken is told so without a look at the link.
-/

namespace Uplink.Link.Client

/-! ## 1. Histories -/

/-- The supervisor begins an attempt whose failure is yet to come. -/
def beginAttempt (c : Client) : Client :=
  match c.supervisor with
  | some ⟨attempts, some _⟩ =>
    { c with session := true, supervisor := some ⟨attempts, none⟩ }.enter .connecting
  | _ => c

/-- The attempt that was begun fails, and so do those after it that have no delay, up to a number of
them. -/
def failAttempts (most : Nat) (c : Client) : Client :=
  match c.supervisor with
  | some ⟨attempts, none⟩ => c.attempt attempts most
  | _ => c

/-- What may happen to a client next. Attempts fail at once, or after any time. -/
inductive Event where
  | turn (strand : Strand)
  | begins
  | fails (most : Nat)
  /-- Time goes on, alarms ring, or turns are planned anew. -/
  | plan (agenda : Agenda Strand)
  /-- A caller asks for something, unless it still waits for what it asked for before. -/
  | ask (caller : Caller) (request : Request)
  | listen (listening : Bool)

def Event.apply : Event → Client → Client
  | .turn strand, c => c.turn strand
  | .begins, c => c.beginAttempt
  | .fails most, c => c.failAttempts most
  | .plan agenda, c => { c with agenda }
  | .ask caller request, c =>
    if c.isDone caller then
      { c.hold caller (.opening request) with agenda := c.agenda.wake (.call caller) }
    else c
  | .listen listening, c => { c with listening }

def after (c : Client) (events : List Event) : Client := events.foldl (fun c e => e.apply c) c

theorem after_append (c : Client) (events more : List Event) :
    c.after (events ++ more) = (c.after events).after more :=
  List.foldl_append ..

/-- Some history leads from one client to another. -/
def Leads (c c' : Client) : Prop := ∃ events, c' = c.after events

theorem Leads.trans {c c' c'' : Client} (h : Leads c c') (h' : Leads c' c'') : Leads c c'' := by
  obtain ⟨events, rfl⟩ := h
  obtain ⟨more, rfl⟩ := h'
  exact ⟨events ++ more, (after_append c events more).symm⟩

theorem follows_leads : Timed.Follows Leads where
  refl _ := ⟨[], rfl⟩
  trans := Leads.trans
  plan f c := ⟨[.plan (f c.agenda)], rfl⟩
  turn strand agenda _ := ⟨[.plan agenda, .turn strand], rfl⟩

theorem leads_settle (c : Client) : Leads c (Timed.settle c) := follows_leads.settle c

theorem leads_passUntil (time : Nat) (c : Client) : Leads c (Timed.passUntil time c) :=
  follows_leads.passUntil time c

/-- Whatever a caller asks for, and however long it waits for it, is a history. -/
theorem leads_ask (c : Client) (caller : Caller) (request : Request)
    (h : c.isDone caller = true) : Leads c (c.ask caller request) := by
  have hask : Leads c { c.hold caller (.opening request) with
      agenda := c.agenda.wake (.call caller) } :=
    ⟨[.ask caller request], (if_pos h).symm⟩
  cases caller with
  | some name => exact hask
  | none =>
    -- In the foreground the caller need not be woken.
    have hasleep : Leads { c.hold none (.opening request) with
        agenda := c.agenda.wake (.call none) } (c.hold none (.opening request)) :=
      ⟨[.plan c.agenda], rfl⟩
    exact (hask.trans hasleep).trans (follows_leads.await (.call none) _ _)

/-! ## 2. Links that do not come up -/

/-- The link was never up. -/
def IsDown (c : Client) : Prop := ∀ e ∈ c.history, e.2 ≠ .connected

theorem IsDown.state_ne {c : Client} (h : c.IsDown) : c.state ≠ .connected := by
  rw [state]
  cases hhistory : c.history with
  | nil =>
    intro hstate
    cases hstate
  | cons e before => exact h e (hhistory ▸ List.mem_cons_self)

/-- What is done without an answer to anybody, and without taking the place of the supervisor. -/
structure Aside (c c' : Client) : Prop where
  isDown : c.IsDown → c'.IsDown
  placeTaken : c'.placeTaken = true → c.placeTaken = true
  finished : c'.finished = c.finished

namespace Aside

variable {c c' c'' : Client}

theorem trans (h : Aside c c') (h' : Aside c' c'') : Aside c c'' :=
  ⟨fun hdown => h'.isDown (h.isDown hdown), fun hplace => h.placeTaken (h'.placeTaken hplace),
    h'.finished.trans h.finished⟩

theorem of_same (hhistory : c'.history = c.history)
    (hplace : c'.placeTaken = true → c.placeTaken = true) (hfinished : c'.finished = c.finished) :
    Aside c c' :=
  ⟨fun hdown e he => hdown e (hhistory ▸ he), hplace, hfinished⟩

end Aside

theorem aside_enter (s : State) (h : s ≠ .connected) (c : Client) : Aside c (c.enter s) := by
  refine ⟨fun hdown e he => ?_, id, rfl⟩
  rcases List.mem_cons.1 he with rfl | he
  · exact h
  · exact hdown e he

theorem aside_reopen (c : Client) : Aside c ({ c with session := true }.enter .connecting) := by
  have hsession : Aside c { c with session := true } := .of_same rfl id rfl
  exact hsession.trans (aside_enter .connecting (by simp) _)

theorem aside_notice (n : Notice) (c : Client) : Aside c (c.notice n) := by
  rw [notice]
  split <;> exact .of_same rfl id rfl

theorem aside_endSupervisor (c : Client) : Aside c c.endSupervisor := .of_same rfl id rfl

theorem aside_lose (cause : String) (c : Client) : Aside c (c.lose cause) := by
  have henter := aside_enter (.disconnected cause) (by simp) c
  rw [lose]
  split
  · exact henter.trans (aside_notice _ _)
  · exact henter

theorem aside_attempt (attempts fuel : Nat) (c : Client) : Aside c (c.attempt attempts fuel) := by
  induction fuel generalizing attempts c with
  | zero => exact .of_same rfl id rfl
  | succ fuel ih =>
    rw [attempt]
    split
    · exact (aside_enter (.disconnected goodbye) (by simp) c).trans (aside_endSupervisor _)
    · have hlost := aside_lose c.library.refusal c
      dsimp only
      split
      · next attempt delay _ =>
        have hnext := hlost.trans (aside_enter (.reconnecting attempt) (by simp) _)
        split
        · exact hnext.trans ((aside_reopen _).trans (ih _ _))
        · exact hnext.trans (.of_same rfl id rfl)
      · have hend := aside_enter (.permanentlyDisconnected (tooManyAttempts attempts))
          (by simp) (c.lose c.library.refusal)
        exact hlost.trans (hend.trans (aside_endSupervisor _))

theorem aside_beginAttempt (c : Client) : Aside c c.beginAttempt := by
  rw [beginAttempt]
  split
  · next attempts _ _ =>
    have hbegun : Aside c { c with session := true, supervisor := some ⟨attempts, none⟩ } :=
      .of_same rfl id rfl
    exact hbegun.trans (aside_enter .connecting (by simp) _)
  · exact .of_same rfl id rfl

theorem aside_failAttempts (most : Nat) (c : Client) : Aside c (c.failAttempts most) := by
  rw [failAttempts]
  split
  · exact aside_attempt _ most c
  · exact .of_same rfl id rfl

theorem aside_supervise (c : Client) : Aside c c.supervise := by
  rw [supervise]
  split
  · exact .of_same rfl id rfl
  · exact aside_attempt _ _ c
  · split
    · exact .of_same rfl id rfl
    · exact (aside_reopen c).trans (aside_attempt _ _ _)

theorem aside_hold (caller : Caller) (dialogue : Dialogue) (c : Client) :
    Aside c (c.hold caller dialogue) := .of_same rfl id rfl

/-! ## 3. The turns of callers -/

/-- What becomes of a client when a call has its turn. -/
inductive Proceeds (caller : Caller) (c : Client) : Client → Prop where
  | aside {c' : Client} (h : Aside c c') : Proceeds caller c c'
  /-- The caller gets its answer. -/
  | answers {c' : Client} (h : Aside c c') (result : Except LinkError Unit) :
    Proceeds caller c (c'.finish caller result)
  /-- A call to connect starts a supervisor. -/
  | starts (hcall : c.calls.lookup caller = some (.opening .connect))
    (hfree : c.placeTaken = false) : Proceeds caller c (c.connect caller)

theorem proceeds_lookAtLink (caller : Caller) (deadline : Nat) (c : Client) :
    Proceeds caller c (c.lookAtLink caller deadline) := by
  have hself : Aside c c := .of_same rfl id rfl
  rw [lookAtLink]
  split
  · exact .answers hself _
  · exact .answers hself _
  · split
    · exact .answers hself _
    · exact .aside hself

theorem proceeds_farewell (caller : Caller) (result : Except LinkError Unit) {c c' : Client}
    (h : Aside c c') : Proceeds caller c (c'.farewell caller result) := by
  have hleft : Aside c' { c' with placeTaken := false }.endSupervisor := .of_same rfl nofun rfl
  have hgone := (h.trans hleft).trans (aside_enter (.disconnected goodbye) (by simp) _)
  exact .answers (hgone.trans (aside_notice .disconnected _)) result

theorem proceeds_disconnect (caller : Caller) (c : Client) :
    Proceeds caller c (c.disconnect caller) := by
  rw [disconnect]
  split
  · exact .answers (.of_same rfl id rfl) _
  · have hleaving : Aside (c.notice .disconnecting)
        { c.notice .disconnecting with leaving := true, session := false } := .of_same rfl id rfl
    have htold := (aside_notice .disconnecting c).trans hleaving
    dsimp only
    split
    · refine .aside ((htold.trans ?_).trans (aside_hold ..))
      exact .of_same rfl nofun rfl
    · exact proceeds_farewell caller _ htold

theorem proceeds (caller : Caller) (c : Client) : Proceeds caller c (c.proceed caller) := by
  have hself : Aside c c := .of_same rfl id rfl
  rw [proceed]
  split
  · exact .aside hself
  · next hcall =>
    cases hplace : c.placeTaken with
    | true =>
      rw [connect_of_placeTaken hplace]
      exact .answers hself _
    | false => exact .starts hcall hplace
  · exact proceeds_disconnect caller c
  · exact proceeds_lookAtLink caller _ c
  · rw [lookAtSupervisor]
    split
    · exact proceeds_farewell caller _ hself
    · exact .aside hself

/-! ## 4. What every event keeps -/

section

variable {c c' : Client} {caller : Caller}

theorem IsDown.connect (h : c.IsDown) (hfree : c.placeTaken = false) (caller : Caller) :
    (c.connect caller).IsDown := by
  rw [connect_of_free hfree]
  intro e he
  rcases List.mem_cons.1 he with rfl | he
  · exact nofun
  · exact h e he

namespace Proceeds

theorem isDown (h : Proceeds caller c c') (hdown : c.IsDown) : c'.IsDown := by
  cases h with
  | aside haside => exact haside.isDown hdown
  | answers haside result => exact haside.isDown hdown
  | starts _ hfree => exact hdown.connect hfree caller

theorem placeTaken (h : Proceeds caller c c') (htaken : c'.placeTaken = true)
    (hfree : c.placeTaken = false) : c.calls.lookup caller = some (.opening .connect) := by
  have hno : ¬ c.placeTaken = true := by
    rw [hfree]
    exact Bool.false_ne_true
  cases h with
  | aside haside => exact absurd (haside.placeTaken htaken) hno
  | answers haside result => exact absurd (haside.placeTaken htaken) hno
  | starts hcall => exact hcall

theorem finished (h : Proceeds caller c c') :
    c'.finished = c.finished ∨ ∃ result, c'.finished = c.finished ++ [(caller, result)] := by
  cases h with
  | aside haside => exact .inl haside.finished
  | answers haside result => exact .inr ⟨result, congrArg (· ++ _) haside.finished⟩
  | starts _ hfree =>
    rw [connect_of_free hfree]
    exact .inl rfl

end Proceeds

/-- Nobody gets an answer but in a turn of its own. -/
theorem Event.apply_cases (e : Event) (c : Client) :
    Aside c (e.apply c) ∨ ∃ caller, e = .turn (.call caller) ∧ Proceeds caller c (e.apply c) := by
  cases e with
  | turn strand =>
    cases strand with
    | supervisor => exact .inl (aside_supervise c)
    | call caller => exact .inr ⟨caller, rfl, proceeds caller c⟩
  | begins => exact .inl (aside_beginAttempt c)
  | fails most => exact .inl (aside_failAttempts most c)
  | plan agenda => exact .inl (.of_same rfl id rfl)
  | listen listening => exact .inl (.of_same rfl id rfl)
  | ask caller request =>
    left
    rw [apply]
    split
    · exact .of_same rfl id rfl
    · exact .of_same rfl id rfl

theorem IsDown.after (h : c.IsDown) (events : List Event) : (c.after events).IsDown := by
  induction events generalizing c with
  | nil => exact h
  | cons e events ih =>
    refine ih ?_
    rcases e.apply_cases c with haside | ⟨caller, -, hproceeds⟩
    · exact haside.isDown h
    · exact hproceeds.isDown h

/-- In a history, a call to connect took the place of the supervisor, and it has not been free
since. -/
def TookPlace (c₀ : Client) (events : List Event) : Prop :=
  ∃ before caller since, events = before ++ .turn (.call caller) :: since ∧
    (c₀.after before).calls.lookup caller = some (.opening .connect) ∧
    (c₀.after before).placeTaken = false ∧
    ∀ part, part <+: since → (c₀.after (before ++ .turn (.call caller) :: part)).placeTaken = true

theorem tookPlace_of_placeTaken {c₀ : Client} (hfree : c₀.placeTaken = false) {events : List Event}
    (h : (c₀.after events).placeTaken = true) : TookPlace c₀ events := by
  induction events using List.reverseRecOn with
  | nil =>
    change c₀.placeTaken = true at h
    rw [hfree] at h
    cases h
  | append_singleton events e ih =>
    have hnext : c₀.after (events ++ [e]) = e.apply (c₀.after events) := after_append c₀ events [e]
    cases hplace : (c₀.after events).placeTaken with
    | true =>
      obtain ⟨before, caller, since, rfl, hcall, hbefore, hsince⟩ := ih hplace
      refine ⟨before, caller, since ++ [e], by simp, hcall, hbefore, fun part hpart => ?_⟩
      rcases List.prefix_concat_iff.1 hpart with rfl | hpart
      · simpa using h
      · exact hsince part hpart
    | false =>
      rw [hnext] at h
      rcases e.apply_cases (c₀.after events) with haside | ⟨caller, rfl, hproceeds⟩
      · rw [haside.placeTaken h] at hplace
        cases hplace
      · refine ⟨events, caller, [], rfl, hproceeds.placeTaken h hplace, hplace, fun part hpart => ?_⟩
        obtain rfl := List.prefix_nil.1 hpart
        rw [hnext]
        exact h

/-! ## 5. What calls to connect are told -/

/-- A caller has called to connect, and has no answer yet. -/
def IsConnecting (caller : Caller) (c : Client) : Prop :=
  ∃ dialogue, c.calls.lookup caller = some dialogue ∧
    (dialogue = .opening .connect ∨ dialogue.awaitsLink = true)

/-- The link does not come up, or has not come up in time. -/
inductive IsRefusal : LinkError → Prop where
  | gaveUp (reason : String) : IsRefusal (.permanentlyDisconnected reason)
  | timedOut : IsRefusal (.connectionFailed noConfirmation)

theorem lookAtLink_confirms_iff (caller : Caller) (deadline : Nat) (c : Client) :
    (c.lookAtLink caller deadline).finished = c.finished ++ [(caller, .ok ())] ↔
      c.state = .connected := by
  rw [lookAtLink]
  split
  · next hstate => simp [finish, hstate]
  · next hstate => simp [finish, hstate]
  · next hne _ =>
    have hstate : ¬ c.state = .connected := hne
    split
    · simp [finish, hstate]
    · simp [hstate]

theorem IsDown.lookAtLink (h : c.IsDown) (caller : Caller) (deadline : Nat) :
    c.agenda.now < deadline ∧ c.lookAtLink caller deadline = c ∨
      ∃ e, IsRefusal e ∧ c.lookAtLink caller deadline = c.finish caller (.error e) := by
  rw [Client.lookAtLink]
  split
  · next hstate => exact absurd hstate h.state_ne
  · exact .inr ⟨_, .gaveUp _, rfl⟩
  · split
    · exact .inr ⟨_, .timedOut, rfl⟩
    · next hlt => exact .inl ⟨Nat.lt_of_not_le hlt, rfl⟩

/-- A call to connect that is told that the link is up has found the place of the supervisor taken. -/
theorem IsDown.placeTaken_of_ok (h : c.IsDown) {e : Event} (hcaller : c.IsConnecting caller)
    (hok : (e.apply c).finished = c.finished ++ [(caller, .ok ())]) :
    c.calls.lookup caller = some (.opening .connect) ∧ c.placeTaken = true := by
  have hturn : e = .turn (.call caller) := by
    rcases e.apply_cases c with haside | ⟨other, rfl, hproceeds⟩
    · rw [haside.finished] at hok
      simp at hok
    · rcases hproceeds.finished with hsame | ⟨result, hresult⟩
      · rw [hsame] at hok
        simp at hok
      · rw [hresult] at hok
        obtain ⟨rfl, -⟩ := Prod.mk.inj (List.singleton_inj.1 (List.append_cancel_left hok))
        rfl
  obtain ⟨dialogue, hcall, hdialogue⟩ := hcaller
  subst hturn
  change (c.proceed caller).finished = _ at hok
  rw [proceed, hcall] at hok
  cases dialogue with
  | opening request =>
    obtain rfl : request = .connect := by simpa [Dialogue.awaitsLink] using hdialogue
    refine ⟨hcall, ?_⟩
    by_contra hfree
    dsimp only at hok
    rw [connect_of_free (Bool.eq_false_iff.2 hfree)] at hok
    simp [hold, alert, wakeCallers] at hok
  | connecting deadline =>
    exact absurd ((lookAtLink_confirms_iff caller deadline c).1 hok) h.state_ne
  | disconnecting => simp [Dialogue.awaitsLink] at hdialogue

theorem turn_of_free {caller : Caller} (hcall : c.calls.lookup caller = some (.opening .connect))
    (hfree : c.placeTaken = false) :
    (c.turn (.call caller)).finished = c.finished ∧
      (c.turn (.call caller)).calls.lookup caller =
        some (.connecting (c.agenda.now + connectWaitMs)) ∧
      (c.turn (.call caller)).supervisor = some {} ∧
      (c.turn (.call caller)).state = .connecting := by
  have hturn : c.turn (.call caller) = c.connect caller := by
    rw [turn, proceed, hcall]
  rw [hturn, connect_of_free hfree]
  exact ⟨rfl, (lookup_filter_ne_append caller caller _ _).trans (if_pos rfl), rfl, rfl⟩

/-- What calls to connect are told by a client that another one has become in a history. -/
structure Confirms (c₀ : Client) (events : List Event) (c : Client) : Prop where
  state_ne : c.state ≠ .connected
  /-- Only a call that finds the place taken by an earlier one is told that the link is up. -/
  placeTaken_of_ok : ∀ e caller, c.IsConnecting caller →
    (Event.apply e c).finished = c.finished ++ [(caller, .ok ())] →
    c.calls.lookup caller = some (.opening .connect) ∧ c.placeTaken = true ∧ TookPlace c₀ events
  /-- It is told so at once as long as the supervisor is at work. -/
  ok_of_placeTaken : ∀ caller, c.calls.lookup caller = some (.opening .connect) →
    c.placeTaken = true → c.supervisor ≠ none →
    c.turn (.call caller) = c.finish caller (.ok ())
  starts : ∀ caller, c.calls.lookup caller = some (.opening .connect) → c.placeTaken = false →
    (c.turn (.call caller)).finished = c.finished ∧
      (c.turn (.call caller)).calls.lookup caller =
        some (.connecting (c.agenda.now + connectWaitMs)) ∧
      (c.turn (.call caller)).supervisor = some {} ∧
      (c.turn (.call caller)).state = .connecting
  waits : ∀ caller deadline, c.calls.lookup caller = some (.connecting deadline) →
    c.agenda.now < deadline ∧ c.turn (.call caller) = c ∨
      ∃ e, IsRefusal e ∧ c.turn (.call caller) = c.finish caller (.error e)

/-- Whatever calls to connect and to disconnect there have been, and when: the link of a client none
of whose attempts succeeds, however long they take to fail, is not up. A call to connect that finds
the place of the supervisor free starts one and waits; it is told in the end that the link does not
come up, and never that it is up. That is only told, and at once, to a call that finds the place
taken by an earlier one. Of any link, up or not, a call that waits for it is told that it is up only
if it is. Histories are made by whoever asks for something, waits for it, or lets time pass. -/
theorem connect_confirms_only_taken_places {library : Library} {env : Environment}
    {options : Options} {broker : BrokerSection} {policy : Policy} {c₀ : Client}
    (hcreate : createWith library env options broker policy = .ok c₀) :
    (∀ events, Confirms c₀ events (c₀.after events)) ∧
      (∀ (c : Client) (caller : Caller) (deadline : Nat),
        (c.lookAtLink caller deadline).finished = c.finished ++ [(caller, .ok ())] ↔
          c.state = .connected) ∧
      ∀ c, Leads c₀ c →
        (∀ caller request, c.isDone caller = true → Leads c₀ (c.ask caller request)) ∧
          Leads c₀ (Timed.settle c) ∧ ∀ time, Leads c₀ (Timed.passUntil time c) := by
  refine ⟨fun events => ?_, fun c caller deadline => lookAtLink_confirms_iff caller deadline c,
    fun c h => ⟨fun caller request hdone => h.trans (leads_ask c caller request hdone),
      h.trans (leads_settle c), fun time => h.trans (leads_passUntil time c)⟩⟩
  obtain rfl := eq_of_createWith hcreate
  have hnever : IsDown { options, broker, policy, library } := nofun
  have hdown := hnever.after events
  refine ⟨hdown.state_ne, fun e caller hcaller hok => ?_, fun caller hcall hplace _ => ?_,
    fun caller => turn_of_free, fun caller deadline hcall => ?_⟩
  · obtain ⟨hcall, hplace⟩ := hdown.placeTaken_of_ok hcaller hok
    exact ⟨hcall, hplace, tookPlace_of_placeTaken rfl hplace⟩
  · rw [turn, proceed, hcall]
    exact connect_of_placeTaken hplace caller
  · have hlooks := hdown.lookAtLink caller deadline
    rw [turn, proceed, hcall]
    exact hlooks

/-- A call is told that the link is up when it finds the place taken by another one. -/
theorem connect_confirms_only_taken_places_second :
    ∃ c₀, create {} {} { url := "mqtt://127.0.0.1", clientId := "gateway", account := "account" } {} =
        .ok c₀ ∧
      let c := c₀.after [.ask (some "first") .connect, .turn (.call (some "first")),
        .turn .supervisor, .ask (some "second") .connect]
      c.turn (.call (some "second")) = c.finish (some "second") (.ok ()) ∧
        c.state ≠ .connected := by
  have hcreate : create {} {}
      { url := "mqtt://127.0.0.1", clientId := "gateway", account := "account" } {} = .ok _ := rfl
  have hconfirms := (connect_confirms_only_taken_places hcreate).1
    [.ask (some "first") .connect, .turn (.call (some "first")),
      .turn .supervisor, .ask (some "second") .connect]
  exact ⟨_, hcreate, hconfirms.ok_of_placeTaken _ rfl rfl nofun, hconfirms.state_ne⟩

set_option maxRecDepth 100000 in
/-- A second call finds the place taken while the supervisor of the first one waits to make another
attempt. -/
theorem not_connected_when_confirmed :
    ∃ c₀, create {} {} { url := "mqtt://127.0.0.1", clientId := "gateway", account := "account" } {} =
        .ok c₀ ∧
      let waiting := Timed.settle (c₀.ask (some "first") .connect)
      let c := Timed.settle (waiting.ask (some "second") .connect)
      c.finished = [(some "second", .ok ())] ∧ c.state = .reconnecting 1 := by
  refine ⟨_, rfl, ?_⟩
  intro waiting c
  have hwaiting : waiting = {
      options := {}
      broker := { url := "mqtt://127.0.0.1", clientId := "gateway", account := "account" }
      policy := {}
      history := [(0, .reconnecting 1), (0, .disconnected "Connection refused"), (0, .connecting)]
      session := true
      supervisor := some ⟨1, some 250⟩
      placeTaken := true
      calls := [(some "first", .connecting 30000)]
      agenda := {
        alarms := [(30000, .call (some "first")), (250, .supervisor)]
        yielded := 3 } } :=
    Timed.settle_of_endsIn ⟨((Timed.Reaches.refl.step rfl).step rfl).step rfl, rfl⟩
  have hc : c = { waiting with
      finished := [(some "second", .ok ())]
      agenda := { waiting.agenda with yielded := 4 } } := by
    simp only [c]
    rw [hwaiting]
    exact Timed.settle_of_endsIn ⟨Timed.Reaches.refl.step rfl, rfl⟩
  rw [hc, hwaiting]
  exact ⟨rfl, rfl⟩

end

end Uplink.Link.Client
