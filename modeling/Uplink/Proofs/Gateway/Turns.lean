import Uplink.Proofs.Gateway.Calls

/-!
# What turns and other events do

A turn is calm unless a connection begins to be set up or to be closed in it, or an activity that
waited goes on with that. The other events are calm as well, but for those that change options or
subscriptions.
-/

namespace Uplink.Gateway

variable {σ : Type} [Transport σ]

/-! ## 1. Waits and what begins in turns -/

def isOver (g : Gateway σ) : Hold → Bool
  | .moment time => time ≤ g.agenda.now
  | .delivery ticket _ deadline => (g.tracker.poll ticket deadline g.agenda.now).1.isSome
  | .poolEnd => (g.pool.closing g.agenda.now).2.drain.isNone

/-- What a turn does to the connection. -/
inductive Deed where
  | nothing
  /-- The gateway is told of a new connection, or finds one. -/
  | opens
  /-- The gateway begins to take its leave. -/
  | leaves
  /-- What there is to subscribe to on a new connection is subscribed to. -/
  | setsUp
  /-- The transport is closed. -/
  | closes
deriving DecidableEq, Repr

def Deed.ofSteps : List Step → Deed
  | .enter .connected :: _ => .opens
  | .enter .disconnecting :: _ => .leaves
  | _ => .nothing

def begun (g : Gateway σ) (strand : Strand) (call : Call) : Result × List Step × Gateway σ :=
  (g.drop strand).beginCall call

def deed (g : Gateway σ) (strand : Strand) : Deed :=
  match g.activity strand with
  | some (.begins call) => .ofSteps (g.begun strand call).2.1
  | some (.waits hold (.reconcile _ :: _)) => if g.isOver hold then .setsUp else .nothing
  | some (.waits hold (.closeTransport :: _)) => if g.isOver hold then .closes else .nothing
  | _ => .nothing

/-- What an activity that waits does before it goes on: it asks what has become of a delivery, or sees
off those who left the pool. -/
inductive Looks (g : Gateway σ) : Gateway σ → Prop where
  | same : Looks g g
  | asks (tracker : Delivery.Tracker) : Looks g (g.track tracker)
  | seesOff : Looks g (g.go (g.pool.closing g.agenda.now))

/-- An activity goes on waiting, or takes the steps that are left. -/
theorem look_cases (strand : Strand) (hold : Hold) (rest : List Step) (g : Gateway σ) :
    ∃ g', Looks g g' ∧
      (g.isOver hold = false ∧ (g.look strand hold rest = g' ∨
          g.look strand hold rest = g'.setAlarm strand hold) ∨
        g.isOver hold = true ∧
          ∃ result, g.look strand hold rest = (g'.drop strand).run strand rest result) := by
  cases hold with
  | moment time =>
    refine ⟨g, .same, ?_⟩
    rw [isOver, look]
    split
    · next hlt => exact .inl ⟨by simpa using hlt, .inl rfl⟩
    · next hle => exact .inr ⟨by simpa using hle, nothing, rfl⟩
  | delivery ticket id deadline =>
    cases hpoll : g.tracker.poll ticket deadline g.agenda.now with
    | mk outcome tracker =>
      refine ⟨g.track tracker, .asks tracker, ?_⟩
      rw [isOver, look, hpoll]
      cases outcome with
      | none => exact .inl ⟨rfl, .inl rfl⟩
      | some outcome => exact .inr ⟨rfl, _, rfl⟩
  | poolEnd =>
    have hdrain : (g.go (g.pool.closing g.agenda.now)).pool.drain.isNone = g.isOver .poolEnd := rfl
    refine ⟨_, .seesOff, ?_⟩
    rw [look, hdrain]
    cases g.isOver .poolEnd with
    | false => exact .inl ⟨rfl, .inr rfl⟩
    | true => exact .inr ⟨rfl, nothing, rfl⟩

omit [Transport σ] in
theorem Looks.steady {g g' : Gateway σ} (h : Looks g g') : Steady false g g' := by
  cases h with
  | same => exact .refl _ g
  | asks tracker => exact steady_track tracker g
  | seesOff => exact steady_go fun hs => hs.jobs.closing _

theorem steady_look {strand : Strand} {hold : Hold} {rest : List Step} {g : Gateway σ}
    (h : g.isOver hold = false) : Steady false g (g.look strand hold rest) := by
  obtain ⟨g', hlooks, ⟨-, hlook | hlook⟩ | ⟨hover, -⟩⟩ := look_cases strand hold rest g
  · exact hlook ▸ hlooks.steady
  · exact hlook ▸ hlooks.steady.trans (steady_setAlarm ..)
  · rw [h] at hover
    cases hover

theorem look_of_isOver (strand : Strand) {hold : Hold} (rest : List Step) {g : Gateway σ}
    (h : g.isOver hold = true) : ∃ g' result, Steady false g g' ∧
      g.look strand hold rest = (g'.drop strand).run strand rest result := by
  obtain ⟨g', hlooks, ⟨hnot, -⟩ | ⟨-, result, hlook⟩⟩ := look_cases strand hold rest g
  · rw [h] at hnot
    cases hnot
  · exact ⟨g', result, hlooks.steady, hlook⟩

/-! ## 2. Calls -/

/-- The steps with which calls begin. -/
inductive Opening : List Step → Prop where
  | quiet {steps : List Step} (h : ∀ s ∈ steps, s.isQuiet) (hdeed : Deed.ofSteps steps = .nothing) :
    Opening steps
  | opens {more : List Step} (h : ∀ s ∈ more, ∃ event, s = .tell event) :
    Opening (establishedSteps ++ more)
  | leaves {more : List Step} (h : more = [] ∨ IsClosing more) :
    Opening (disconnectingSteps ++ more)

theorem opening_nil : Opening [] := .quiet (fun _ h => nomatch h) rfl

theorem opening_established : Opening (callbackSteps .established) :=
  .opens (by simp)

theorem beginConnect_spec (g : Gateway σ) :
    Steady false g g.beginConnect.2.2 ∧ Opening g.beginConnect.2.1 := by
  have henter (state : State) (h : state ≠ .connected) (transport : σ) :
      Steady false g { g with transport, state } :=
    ⟨⟨rfl, rfl, rfl, id, fun hs => absurd hs h, ⟨[], by simp, by simp⟩, fun hs => ⟨hs.1, hs.2⟩⟩,
      fun _ _ _ => .rfl⟩
  unfold beginConnect
  dsimp only
  split
  · exact ⟨henter _ (by decide) _, opening_nil⟩
  · exact ⟨henter _ (by decide) _, opening_established⟩
  · exact ⟨henter _ (by decide) _, opening_nil⟩

/-- To disconnect is to do nothing, or to take leave and close the transport. -/
theorem beginDisconnect_spec (g : Gateway σ) :
    Steady false g g.beginDisconnect.2.2 ∧
      (g.beginDisconnect.2.1 = [] ∨ g.beginDisconnect.2.1 =
        disconnectingSteps ++ [.closeTransport, .enter .disconnected, .tell .disconnected]) := by
  unfold beginDisconnect
  split
  · exact ⟨.refl _ g, .inl rfl⟩
  · dsimp only
    split
    · exact ⟨.of_inert rfl, .inl rfl⟩
    · exact ⟨.of_inert rfl, .inr rfl⟩

theorem isClosing_cons (more : List Step) (h : ∀ s ∈ more, s.isQuiet ∧ s.isInternal) :
    IsClosing (.closeTransport :: .enter .disconnected :: .tell .disconnected :: more) := by
  refine ⟨_, rfl, fun s hs => ?_⟩
  rcases List.mem_cons.1 hs with rfl | hs
  · decide
  · rcases List.mem_cons.1 hs with rfl | hs
    · decide
    · exact h s hs

theorem beginCall_spec (call : Call) (g : Gateway σ) :
    Steady false g (g.beginCall call).2.2 ∧ Opening (g.beginCall call).2.1 := by
  cases call with
  | start =>
    rw [beginCall]
    split
    · exact ⟨.refl _ g, opening_nil⟩
    · split
      · exact ⟨.refl _ g, show Opening (establishedSteps ++ []) from .opens (by simp)⟩
      · exact beginConnect_spec g
  | connect =>
    rw [beginCall]
    split
    · exact ⟨.refl _ g, opening_nil⟩
    · exact beginConnect_spec g
  | disconnect =>
    obtain ⟨hsteady, hsteps⟩ := beginDisconnect_spec g
    refine ⟨hsteady, ?_⟩
    show Opening g.beginDisconnect.2.1
    -- Without a connection there is nothing to take down.
    rcases hsteps with h | h
    · rw [h]
      exact opening_nil
    · rw [h]
      exact .leaves (.inr (isClosing_cons [] (by simp)))
  | shutDown =>
    have hstop : Steady false g { g with stopping := true, debouncer := g.debouncer.cancel } :=
      ⟨⟨rfl, rfl, rfl, fun _ => rfl, id, ⟨[], by simp, by simp⟩, fun hs => ⟨hs.1, hs.2⟩⟩,
        fun _ _ _ => .rfl⟩
    obtain ⟨hsteady, hsteps⟩ :=
      beginDisconnect_spec { g with stopping := true, debouncer := g.debouncer.cancel }
    refine ⟨hstop.trans hsteady, ?_⟩
    show Opening ((beginDisconnect _).2.1 ++ [.closePool])
    rcases hsteps with h | h
    · rw [h]
      exact .quiet (by decide) rfl
    · rw [h, List.append_assoc]
      exact .leaves (.inr (isClosing_cons [.closePool] (by decide)))
  | publish message => exact ⟨.refl _ g, .quiet (by simp [beginCall, Step.isQuiet]) rfl⟩
  | callback c =>
    refine ⟨.refl _ g, ?_⟩
    cases c with
    | established => exact opening_established
    | disconnecting => exact .leaves (.inl (rfl : ([] : List Step) = []))
    | disconnected =>
      exact .quiet (show ∀ s ∈ [Step.enter .disconnected, .tell .disconnected], _ by decide) rfl
    | lost => exact .quiet (show ∀ s ∈ [Step.enter .disconnected, .tell .lost], _ by decide) rfl

/-! ## 3. Turns that do nothing to the connection -/

omit [Transport σ] in
/-- Only callers have to do with the connection. -/
theorem Sound.isFree {g : Gateway σ} (hs : g.Sound) {strand : Strand}
    (h : ∀ caller, strand ≠ .call caller) : g.IsFree strand := by
  intro a ha
  have hsound := hs.activity strand a ha
  cases a with
  | begins | steps => rfl
  | waits hold rest =>
    rcases hsound with hq | ⟨⟨caller, hc⟩, -⟩
    · exact not_isUnderWay_of_quiet hq
    · exact absurd hc (h caller)

theorem steady_turnOf {g : Gateway σ} (hs : g.Sound) {strand : Strand} (hfree : g.IsFree strand) :
    Steady (!g.stopping) g (g.turnOf strand) := by
  unfold turnOf
  split
  · exact (steady_go fun hs => hs.jobs.turn _).weaken
  · next number =>
    split
    · next steps hsteps =>
      obtain ⟨before, behind, hactive, -⟩ := List.lookup_eq_some_iff.1 hsteps
      have hmem : (number, steps) ∈ g.pool.active := by simp [hactive]
      exact steady_run (hs.jobs.active _ hmem) _ hfree
    · exact .refl _ g
  · next generation =>
    split
    · exact .refl _ g
    · exact .weaken (.of_inert rfl)
    · next debouncer _ =>
      have hflush : Steady (!g.stopping) g { g with debouncer := debouncer.flushed } :=
        .weaken (.of_inert rfl)
      refine hflush.andThen (steady_run (fun s hs => ?_) _ (hflush.isFree hfree))
      obtain ⟨_, -, rfl⟩ := List.mem_map.1 hs
      rfl
  · exact .refl _ g

/-- What is left of an activity that has nothing to do with the connection is quiet. -/
theorem quiet_of_deed {g : Gateway σ} (hs : g.Sound) {strand : Strand} {hold : Hold}
    {rest : List Step} (ha : g.activity strand = some (.waits hold rest))
    (hover : g.isOver hold = true) (h : g.deed strand = .nothing) : ∀ s ∈ rest, s.isQuiet := by
  rcases hs.activity strand _ ha with hq | ⟨-, ⟨more, rfl, -⟩ | ⟨more, rfl, -⟩⟩
  · exact hq
  · rw [deed, ha] at h
    simp only [hover, if_true] at h
    cases h
  · rw [deed, ha] at h
    simp only [hover, if_true] at h
    cases h

/-- A strand that is there goes on with what it is about. -/
theorem turn_eq {g : Gateway σ} {strand : Strand} (h : g.isAlive strand = true) :
    g.turn strand =
      match g.activity strand with
      | none => g.turnOf strand
      | some (.begins call) =>
        (g.begun strand call).2.2.run strand (g.begun strand call).2.1 (g.begun strand call).1
      | some (.steps steps) => (g.drop strand).run strand steps nothing
      | some (.waits hold rest) => g.look strand hold rest := by
  rw [turn, if_pos h]
  rfl

theorem steady_turn {g : Gateway σ} (hs : g.Sound) {strand : Strand}
    (h : g.deed strand = .nothing) : Steady (!g.stopping) g (g.turn strand) := by
  by_cases halive : g.isAlive strand = true
  · rw [turn_eq halive]
    cases ha : g.activity strand with
    | none => exact steady_turnOf hs fun a h => by rw [ha] at h; cases h
    | some a =>
      have hfree (hu : a.isUnderWay = false) : g.IsFree strand := fun b hb => by
        rw [ha] at hb
        cases hb
        exact hu
      cases a with
      | begins call =>
        obtain ⟨hsteady, hopening⟩ := beginCall_spec call (g.drop strand)
        have hbegun : Steady (!g.stopping) g (g.begun strand call).2.2 :=
          ((steady_drop (hfree rfl)).trans hsteady).weaken
        rw [deed, ha] at h
        change Opening (g.begun strand call).2.1 at hopening
        dsimp only at h ⊢
        generalize (g.begun strand call).2.1 = steps at h hopening
        -- The steps of a call that does nothing to the connection are all quiet.
        cases hopening with
        | quiet hq => exact hbegun.andThen (steady_run hq _ (hbegun.isFree (hfree rfl)))
        | opens => cases h
        | leaves => cases h
      | steps todo =>
        have hq : ∀ s ∈ todo, s.isQuiet := hs.activity strand _ ha
        have hdrop : Steady (!g.stopping) g (g.drop strand) := (steady_drop (hfree rfl)).weaken
        exact hdrop.andThen (steady_run hq _ (isFree_drop strand g))
      | waits hold rest =>
        cases hover : g.isOver hold with
        | false => exact (steady_look hover).weaken
        | true =>
          -- What was waited for is there, and the rest is quiet.
          have hq := quiet_of_deed hs ha hover h
          obtain ⟨g', result, hsteady, hlook⟩ := look_of_isOver strand rest hover
          have hfree' := hsteady.isFree (hfree (not_isUnderWay_of_quiet hq))
          have hdrop : Steady (!g.stopping) g (g'.drop strand) :=
            (hsteady.trans (steady_drop hfree')).weaken
          show Steady _ g (g.look strand hold rest)
          rw [hlook]
          exact hdrop.andThen (steady_run hq _ (isFree_drop strand g'))
  · rw [turn, if_neg halive]
    refine (steady_drop (hs.isFree fun caller hc => ?_)).weaken
    subst hc
    exact halive rfl

/-! ## 4. Messages handed to the transport -/

/-- A message was handed to the transport, which took it or not. -/
structure Handed (message : Outbound) (g g' : Gateway σ) : Prop where
  notes : g'.notes = g.notes ++ [.published message (Transport.publish message g.transport).1]
  transport : g'.transport = (Transport.publish message g.transport).2
  state : g'.state = g.state

theorem handed_hand (message : Outbound) (g : Gateway σ) :
    Handed message g (g.hand message).2 := by
  unfold hand
  cases hp : Transport.publish message g.transport with
  | mk result transport =>
    cases result with
    | error e => exact ⟨by rw [hp]; rfl, by rw [hp]; rfl, rfl⟩
    | ok id =>
      dsimp only
      split <;> exact ⟨by rw [hp]; rfl, by rw [hp]; rfl, rfl⟩

theorem handed_handTracked (message : Outbound) (g : Gateway σ) :
    Handed message g (g.handTracked message).2 := by
  have hhand := handed_hand message (g.track (g.tracker.arm message.qos).2)
  have htrack {g' : Gateway σ} (h : Handed message (g.track (g.tracker.arm message.qos).2) g')
      (tracker : Delivery.Tracker) : Handed message g (g'.track tracker) := ⟨h.1, h.2, h.3⟩
  unfold handTracked
  dsimp only
  split
  · next heq =>
    rw [heq] at hhand
    exact htrack hhand _
  · next heq =>
    rw [heq] at hhand
    split <;> exact htrack hhand _

/-- The options name an application under which certificates of a kind are published. -/
def places (o : Options) (kind : CertificateKind) : Bool :=
  !(Certificate.target o (kind.suffix o)).1.isEmpty

def certified (kind : CertificateKind) (g : Gateway σ) : Outbound :=
  let message := g.certificate kind
  ⟨g.options.topic none (Certificate.target g.options (kind.suffix g.options)).1
    (Certificate.target g.options (kind.suffix g.options)).2 true,
    g.options.encodePayload message.payload, message.qos, message.retain, message.priority⟩

omit [Transport σ] in
theorem destination_certificate (kind : CertificateKind) (g : Gateway σ) :
    (g.certificate kind).destination =
      .app (Certificate.target g.options (kind.suffix g.options)).1
        (Certificate.target g.options (kind.suffix g.options)).2 true none :=
  rfl

theorem deliver_certificate {kind : CertificateKind} {g : Gateway σ} (h : places g.options kind) :
    g.deliver (g.certificate kind) false = g.handTracked (g.certified kind) := by
  have hempty : (Certificate.target g.options (kind.suffix g.options)).1.isEmpty = false := by
    rw [places, Bool.not_eq_true'] at h
    exact h
  have hresolve : (g.certificate kind).destination.resolve g.options =
      .ok (g.certified kind).topic := by
    rw [destination_certificate, Destination.resolve, hempty]
    rfl
  rw [deliver, hresolve]
  rfl

theorem deliver_certificate_of_not_places {kind : CertificateKind} {g : Gateway σ}
    (h : places g.options kind = false) :
    g.deliver (g.certificate kind) false = (.goesOn (.error (.destination .emptyApp)), g) := by
  have hempty : (Certificate.target g.options (kind.suffix g.options)).1.isEmpty = true := by
    rw [places, Bool.not_eq_false'] at h
    exact h
  have hresolve : (g.certificate kind).destination.resolve g.options = .error .emptyApp := by
    rw [destination_certificate, Destination.resolve, hempty]
    rfl
  rw [deliver, hresolve]

theorem state_deliver (message : Message) (g : Gateway σ) :
    (g.deliver message false).2.state = g.state := by
  unfold deliver
  split
  · rfl
  · exact (handed_handTracked _ g).state

/-! ## 5. Turns that set up a connection or close one -/

omit [Transport σ] in
theorem state_finish (strand : Strand) (result : Result) (g : Gateway σ) :
    (g.finish strand result).state = g.state := by
  unfold finish
  split <;> rfl

omit [Transport σ] in
theorem state_setAlarm (strand : Strand) (hold : Hold) (g : Gateway σ) :
    (g.setAlarm strand hold).state = g.state := by
  obtain ⟨agenda, heq⟩ := setAlarm_eq strand hold g
  rw [heq]

omit [Transport σ] in
theorem activity_setAlarm (strand other : Strand) (hold : Hold) (g : Gateway σ) :
    (g.setAlarm strand hold).activity other = g.activity other := by
  obtain ⟨agenda, heq⟩ := setAlarm_eq strand hold g
  rw [heq]
  rfl

omit [Transport σ] in
theorem state_tell (event : ConnectionEvent) (g : Gateway σ) : (g.tell event).state = g.state := by
  rw [tell]
  generalize g.connectionListeners.members.filter _ = members
  induction members generalizing g with
  | nil => rfl
  | cons l members ih => exact ih (g.note _)

theorem state_run_tell (strand : Strand) {steps : List Step}
    (h : ∀ s ∈ steps, ∃ event, s = .tell event) (result : Result) (g : Gateway σ) :
    (g.run strand steps result).state = g.state := by
  induction steps generalizing result g with
  | nil => exact state_finish strand result g
  | cons s rest ih =>
    obtain ⟨event, rfl⟩ := h s List.mem_cons_self
    have hrest := ih (fun s hs => h s (List.mem_cons_of_mem _ hs)) nothing (g.tell event)
    exact hrest.trans (state_tell event g)

theorem quiet_of_tell {steps : List Step} (h : ∀ s ∈ steps, ∃ event, s = .tell event) :
    ∀ s ∈ steps, s.isQuiet := by
  intro s hs
  obtain ⟨event, rfl⟩ := h s hs
  rfl

/-- What is left to do for a new connection makes the calls about filters first. -/
theorem run_setUp (strand : Strand) (more : List Step) (result : Result) (g : Gateway σ) :
    g.run strand (.reconcile true :: .resubscribe :: more) result =
      (g.reconcile true).resubscribe.run strand more nothing :=
  rfl

theorem run_certificate (strand : Strand) (kind : CertificateKind) (rest : List Step)
    (result : Result) (g : Gateway σ) :
    let g' := (g.deliver (g.certificate kind) false).2
    (∃ hold, g.run strand (.certificate kind :: rest) result =
        (g'.hold strand (.waits hold rest)).setAlarm strand hold) ∨
      ∃ result', g.run strand (.certificate kind :: rest) result = g'.run strand rest result' := by
  rw [run, take]
  cases g.deliver (g.certificate kind) false with
  | mk progress g' =>
    cases progress with
    | goesOn result' => exact .inr ⟨result', rfl⟩
    | waits hold => exact .inl ⟨hold, rfl⟩

theorem steady_run_closing {strand : Strand} {more : List Step} (h : more = [] ∨ IsClosing more)
    (result : Result) {g : Gateway σ} (hfree : g.IsFree strand) :
    Steady (!g.stopping) g (g.run strand more result) := by
  rcases h with rfl | ⟨more, rfl, hmore⟩
  · exact steady_run (by simp) result hfree
  · have hclose : Steady false g { g with transport := Transport.endClose g.transport } :=
      .of_inert rfl
    exact hclose.weaken.andThen
      (steady_run (fun s hs => (hmore s hs).1) nothing (hclose.isFree hfree))

theorem begins_of_deed {g : Gateway σ} {strand : Strand}
    (h : g.deed strand = .opens ∨ g.deed strand = .leaves) :
    ∃ call, g.activity strand = some (.begins call) ∧
      g.deed strand = .ofSteps (g.begun strand call).2.1 := by
  unfold deed at h ⊢
  split at h
  · next call ha => exact ⟨call, ha, rfl⟩
  · split at h <;> rcases h with h | h <;> cases h
  · split at h <;> rcases h with h | h <;> cases h
  · rcases h with h | h <;> cases h

theorem turn_begins {g : Gateway σ} (hs : g.Sound) {strand : Strand} {call : Call}
    (ha : g.activity strand = some (.begins call)) :
    Steady false g (g.begun strand call).2.2 ∧ (g.begun strand call).2.2.IsFree strand ∧
      (∃ caller, strand = .call caller) ∧ Opening (g.begun strand call).2.1 ∧
      g.turn strand =
        (g.begun strand call).2.2.run strand (g.begun strand call).2.1 (g.begun strand call).1 := by
  obtain ⟨caller, rfl⟩ := hs.activity strand _ ha
  obtain ⟨hsteady, hopening⟩ := beginCall_spec call (g.drop (.call caller))
  have hfree : g.IsFree (.call caller) := fun b hb => by
    rw [ha] at hb
    cases hb
    rfl
  refine ⟨(steady_drop hfree).trans hsteady, hsteady.isFree (isFree_drop _ g), ⟨caller, rfl⟩,
    hopening, ?_⟩
  rw [turn_eq rfl, ha]

/-- What a set-up has come to at the end of a turn: it waits, or what is wanted was asked for. -/
inductive SetUp (strand : Strand) (g g' : Gateway σ) : Prop where
  | waits (hcalm : Calm false g g') (hstate : g'.state = g.state) (a : Activity)
    (ha : g'.activity strand = some a) (hsets : a.isSettingUp)
  | done (hcalm : Calm true (g.reconcile true).resubscribe g') (hstate : g'.state = g.state)

/-- On a new connection a birth is handed over, and then everything is subscribed to. -/
theorem turn_opens {g : Gateway σ} (hs : g.Sound) {strand : Strand} (h : g.deed strand = .opens) :
    ∃ g₁, Calm true { g with state := .connected } g₁ ∧ g₁.state = .connected ∧
      SetUp strand g₁ (g.turn strand) := by
  obtain ⟨call, ha, hdeed⟩ := begins_of_deed (.inl h)
  obtain ⟨hsteady, hfree, hcaller, hopening, hturn⟩ := turn_begins hs ha
  rw [h] at hdeed
  rw [hturn]
  generalize (g.begun strand call).2.2 = b, (g.begun strand call).2.1 = steps at *
  cases hopening with
  | quiet _ hq => rw [hq] at hdeed; cases hdeed
  | leaves => cases hdeed
  | @opens more hmore =>
    let g₀ : Gateway σ := { b with state := .connected, debouncer := b.debouncer.cancel }
    have hdeliver := steady_deliver (g₀.certificate .birth) false g₀
    have hstate : (g₀.deliver (g₀.certificate .birth) false).2.state = .connected :=
      state_deliver _ g₀
    refine ⟨(g₀.deliver (g₀.certificate .birth) false).2,
      (hsteady.toCalm.enter _ _).weaken.trans hdeliver.toCalm, hstate, ?_⟩
    have hg₀ : g₀.IsFree strand := hfree
    have hfree₁ := hdeliver.isFree hg₀
    have hquiet := quiet_of_tell hmore
    show SetUp strand _
      (g₀.run strand (.certificate .birth :: .reconcile true :: .resubscribe :: more) nothing)
    -- The birth is acknowledged at once, or the strand waits before it subscribes.
    rcases run_certificate strand .birth (.reconcile true :: .resubscribe :: more) nothing g₀ with
      ⟨hold, hrun⟩ | ⟨result', hrun⟩
    · rw [hrun]
      refine .waits (calm_wait (.inr ⟨hcaller, .inl ⟨more, rfl, hquiet⟩⟩) _) ?_
        (.waits hold (.reconcile true :: .resubscribe :: more)) ?_ rfl
      · rw [state_setAlarm]
        rfl
      · rw [activity_setAlarm, activity_hold, if_pos rfl]
    · have hasks := asks_setUp (g₀.deliver (g₀.certificate .birth) false).2
      rw [hrun, run_setUp]
      refine .done (steady_run hquiet _ (hasks.isFree hfree₁)).toCalm.loosen ?_
      rw [state_run_tell strand hmore, hasks.state]

/-- To take leave is to hand over a disconnect certificate, and what follows is calm. -/
theorem turn_leaves {g : Gateway σ} (hs : g.Sound) {strand : Strand}
    (h : g.deed strand = .leaves) :
    ∃ g₀, Calm false g g₀ ∧
      let g₁ := (g₀.deliver (g₀.certificate .disconnect) false).2
      Calm (!g₁.stopping) g₁ (g.turn strand) := by
  obtain ⟨call, ha, hdeed⟩ := begins_of_deed (.inr h)
  obtain ⟨hsteady, hfree, hcaller, hopening, hturn⟩ := turn_begins hs ha
  rw [h] at hdeed
  rw [hturn]
  generalize (g.begun strand call).2.2 = b, (g.begun strand call).2.1 = steps at *
  cases hopening with
  | quiet _ hq => rw [hq] at hdeed; cases hdeed
  | opens => cases hdeed
  | @leaves more hmore =>
    let g₀ : Gateway σ := { b with state := .disconnecting, debouncer := b.debouncer.cancel }
    have hg₀ : Steady false b g₀ :=
      ⟨⟨rfl, rfl, rfl, id, fun hs => (nomatch hs), ⟨[], by simp [g₀], by simp⟩,
        fun hs => ⟨hs.1, hs.2⟩⟩, fun _ _ _ => .rfl⟩
    have hbegun := hsteady.trans hg₀
    have hdeliver := steady_deliver (g₀.certificate .disconnect) false g₀
    have hfree₁ := hdeliver.isFree (hg₀.isFree hfree)
    refine ⟨g₀, hbegun.toCalm, ?_⟩
    show Calm _ _ (g₀.run strand (.certificate .disconnect :: more) nothing)
    -- What follows the certificate closes the connection, now or after a wait.
    rcases run_certificate strand .disconnect more nothing g₀ with ⟨hold, hrun⟩ | ⟨result', hrun⟩
    · have hsound : (Activity.waits hold more).IsSound strand := by
        rcases hmore with rfl | hclosing
        · exact .inl (by simp)
        · exact .inr ⟨hcaller, .inr hclosing⟩
      rw [hrun]
      exact (calm_wait hsound _).weaken
    · rw [hrun]
      exact (steady_run_closing hmore result' hfree₁).toCalm

theorem Deed.ofSteps_cases (steps : List Step) :
    ofSteps steps = .opens ∨ ofSteps steps = .leaves ∨ ofSteps steps = .nothing := by
  unfold ofSteps
  split
  · exact .inl rfl
  · exact .inr (.inl rfl)
  · exact .inr (.inr rfl)

theorem waits_of_deed {g : Gateway σ} (hs : g.Sound) {strand : Strand}
    (h : g.deed strand = .setsUp ∨ g.deed strand = .closes) :
    ∃ hold rest, g.activity strand = some (.waits hold rest) ∧ g.isOver hold = true ∧
      (∃ caller, strand = .call caller) ∧
      (g.deed strand = .setsUp ∧ IsSetUp rest ∨ g.deed strand = .closes ∧ IsClosing rest) := by
  unfold deed at h ⊢
  split at h
  · next call _ =>
    rcases Deed.ofSteps_cases (g.begun strand call).2.1 with ho | ho | ho <;> rw [ho] at h <;>
      rcases h with h | h <;> cases h
  · next hold isNew rest ha =>
    cases hover : g.isOver hold with
    | false => rw [hover] at h; rcases h with h | h <;> cases h
    | true =>
      rcases hs.activity strand _ ha with hq | ⟨hcaller, hsetUp | ⟨_, hrest, _⟩⟩
      · cases hq _ List.mem_cons_self
      · exact ⟨hold, _, ha, hover, hcaller, .inl ⟨by simp, hsetUp⟩⟩
      · cases hrest
  · next hold rest ha =>
    cases hover : g.isOver hold with
    | false => rw [hover] at h; rcases h with h | h <;> cases h
    | true =>
      rcases hs.activity strand _ ha with hq | ⟨hcaller, ⟨_, hrest, _⟩ | hclosing⟩
      · cases hq _ List.mem_cons_self
      · cases hrest
      · exact ⟨hold, _, ha, hover, hcaller, .inr ⟨by simp, hclosing⟩⟩
  · rcases h with h | h <;> cases h

/-- What was left to do for a new connection is done: what is wanted was asked for. -/
theorem turn_setsUp {g : Gateway σ} (hs : g.Sound) {strand : Strand}
    (h : g.deed strand = .setsUp) :
    ∃ g₁, Calm false g g₁ ∧ Calm (!g₁.stopping) (g₁.reconcile true).resubscribe (g.turn strand) := by
  obtain ⟨hold, rest, ha, hover, ⟨caller, rfl⟩, hrest⟩ := waits_of_deed hs (.inl h)
  rw [h] at hrest
  obtain ⟨-, more, rfl, hmore⟩ | ⟨hrest, -⟩ := hrest
  · obtain ⟨g', result, hsteady, hlook⟩ := look_of_isOver (.call caller)
      (.reconcile true :: .resubscribe :: more) hover
    refine ⟨g'.drop (.call caller), hsteady.toCalm.trans (calm_drop _ g'), ?_⟩
    have hasks := asks_setUp (g'.drop (.call caller))
    have hstopping : (reconcile true _).resubscribe.stopping = (g'.drop (.call caller)).stopping :=
      hasks.stopping
    rw [turn_eq rfl, ha, ← hstopping]
    show Calm _ _ (g.look _ hold _)
    rw [hlook, run_setUp]
    exact (steady_run hmore nothing (hasks.isFree (isFree_drop _ g'))).toCalm
  · cases hrest

/-- What was left to do when the leave was taken is done. -/
theorem turn_closes {g : Gateway σ} (hs : g.Sound) {strand : Strand}
    (h : g.deed strand = .closes) : Calm (!g.stopping) g (g.turn strand) := by
  obtain ⟨hold, rest, ha, hover, ⟨caller, rfl⟩, hrest⟩ := waits_of_deed hs (.inr h)
  rw [h] at hrest
  obtain ⟨hrest, -⟩ | ⟨-, hclosing⟩ := hrest
  · cases hrest
  · obtain ⟨g', result, hsteady, hlook⟩ := look_of_isOver (.call caller) rest hover
    have hdrop : Calm (!g.stopping) g (g'.drop (.call caller)) :=
      (hsteady.toCalm.trans (calm_drop _ g')).weaken
    rw [turn_eq rfl, ha]
    show Calm _ _ (g.look _ hold _)
    rw [hlook]
    exact hdrop.andThen (steady_run_closing (.inr hclosing) result (isFree_drop _ g')).toCalm

end Uplink.Gateway
