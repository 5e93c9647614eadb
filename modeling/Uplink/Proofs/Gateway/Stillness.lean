import Uplink.Proofs.Gateway.Events

/-!
# What leaves state and link as they are

A gateway has a state of its own beside the link of its transport. Most steps change neither of the
two. Those that do are the ones with which a connection is found and those with which it is closed, and
an activity waits at most once with one of them still to take: when it has taken leave and is about to
close the transport.
-/

namespace Uplink

/-- The link of a transport changes when the transport connects and when it is closed, and not
otherwise. -/
structure Transport.IsFaithful (σ : Type) [Transport σ] : Prop where
  established : ∀ t : σ, (Transport.connect t).1 = .ok .established →
    Transport.isConnected (Transport.connect t).2 = true
  connect : ∀ t : σ, (Transport.connect t).1 ≠ .ok .established →
    Transport.isConnected (Transport.connect t).2 = Transport.isConnected t
  beginClose : ∀ t : σ,
    Transport.isConnected (Transport.beginClose t).2 = Transport.isConnected t
  endClose : ∀ t : σ, Transport.isConnected (Transport.endClose t) = false
  publish : ∀ (m : Outbound) (t : σ),
    Transport.isConnected (Transport.publish m t).2 = Transport.isConnected t
  subscribe : ∀ (filter : String) (qos : Qos) (t : σ),
    Transport.isConnected (Transport.subscribe filter qos t).2 = Transport.isConnected t
  unsubscribe : ∀ (filter : String) (t : σ),
    Transport.isConnected (Transport.unsubscribe filter t).2 = Transport.isConnected t

theorem Loopback.isFaithful : Transport.IsFaithful Loopback where
  established l h := by
    change (connect l).1 = _ at h
    show (connect l).2.connected = true
    rw [connect] at h ⊢
    split at h
    · cases h
    · next hfails => rw [if_neg hfails]
  connect l h := by
    change (connect l).1 ≠ _ at h
    show (connect l).2.connected = l.connected
    rw [connect] at h ⊢
    split at h
    · next hfails => rw [if_pos hfails]
    · exact absurd rfl h
  beginClose l := by
    show (beginClose l).2.connected = l.connected
    rw [beginClose]
    split
    · rfl
    · dsimp only
      split <;> rfl
  endClose _ := rfl
  publish m l := by
    show (publish m l).2.connected = l.connected
    rw [publish]
    split
    · rfl
    · split <;> rfl
  subscribe _ _ _ := rfl
  unsubscribe _ _ := rfl

namespace Gateway

variable {σ : Type}

/-! ## 1. What changes neither state nor link -/

/-- A step that leaves the state and the link as they are. -/
def Step.isStill : Step → Bool
  | .enter _ | .closeTransport => false
  | _ => true

/-- What is left to do of a disconnect when the leave was taken. -/
def IsParting (steps : List Step) : Prop :=
  ∃ more, steps = .closeTransport :: .enter .disconnected :: more ∧ ∀ s ∈ more, s.isStill

/-- What an activity can be about between turns. Callbacks are not put off. -/
def Activity.IsOrdered (strand : Strand) : Activity → Prop
  | .begins call => (∃ caller, strand = .call caller) ∧ ∀ c, call ≠ .callback c
  | .steps todo => ∀ s ∈ todo, s.isStill
  | .waits _ rest => (∀ s ∈ rest, s.isStill) ∨ (∃ caller, strand = .call caller) ∧ IsParting rest

structure Ordered (g : Gateway σ) : Prop where
  activity : ∀ strand a, g.activity strand = some a → a.IsOrdered strand
  jobs : g.pool.AllJobs fun job => ∀ s ∈ job, s.isStill

theorem Ordered.of_same {g g' : Gateway σ} (h : g.Ordered) (hactivities : g'.activities = g.activities)
    (hpool : g'.pool = g.pool) : g'.Ordered := by
  refine ⟨fun strand a ha => h.activity strand a ?_, hpool ▸ h.jobs⟩
  rwa [Gateway.activity, hactivities] at ha

theorem Ordered.hold {g : Gateway σ} (h : g.Ordered) {strand : Strand} {a : Activity}
    (ha : a.IsOrdered strand) : (g.hold strand a).Ordered := by
  refine ⟨fun other b hb => ?_, h.jobs⟩
  rw [activity_hold] at hb
  split at hb
  · next heq =>
    cases hb
    exact heq ▸ ha
  · exact h.activity other b hb

/-- Only the other activities matter when one is forgotten. -/
theorem ordered_drop {g : Gateway σ} {strand : Strand}
    (hothers : ∀ other a, other ≠ strand → g.activity other = some a → a.IsOrdered other)
    (hjobs : g.pool.AllJobs fun job => ∀ s ∈ job, s.isStill) : (g.drop strand).Ordered := by
  refine ⟨fun other a ha => ?_, hjobs⟩
  rw [activity_drop] at ha
  split at ha
  · cases ha
  · next hne => exact hothers other a hne ha

variable [Transport σ]

structure Still (g g' : Gateway σ) : Prop where
  state : g'.state = g.state
  link : g'.isConnected = g.isConnected
  ordered : g.Ordered → g'.Ordered

namespace Still

variable {g g' g'' : Gateway σ}

theorem trans (h : Still g g') (h' : Still g' g'') : Still g g'' :=
  ⟨h'.state.trans h.state, h'.link.trans h.link, fun hs => h'.ordered (h.ordered hs)⟩

theorem of_same (hstate : g'.state = g.state) (hlink : g'.isConnected = g.isConnected)
    (hactivities : g'.activities = g.activities) (hpool : g'.pool = g.pool) : Still g g' :=
  ⟨hstate, hlink, fun h => h.of_same hactivities hpool⟩

theorem refl (g : Gateway σ) : Still g g := of_same rfl rfl rfl rfl

end Still

theorem still_foldl_note {α : Type} (note : α → Note) (list : List α) (g : Gateway σ) :
    Still g (list.foldl (fun g a => g.note (note a)) g) := by
  rw [foldl_note]
  exact .of_same rfl rfl rfl rfl

theorem still_acknowledge (id : Nat) (topic : String) (ack : Delivery.Acknowledgement)
    (g : Gateway σ) : Still g (g.acknowledge id topic ack) :=
  .trans (.of_same rfl rfl rfl rfl : Still g (g.track (g.tracker.resolve id ack).2))
    (still_foldl_note ..)

theorem still_go {g : Gateway σ} {result : List Pool.Strand × Pool (List Step)}
    (h : g.Ordered → result.2.AllJobs fun job => ∀ s ∈ job, s.isStill) : Still g (g.go result) :=
  ⟨rfl, rfl, fun hs => ⟨hs.activity, h hs⟩⟩

theorem still_drop (strand : Strand) (g : Gateway σ) : Still g (g.drop strand) :=
  ⟨rfl, rfl, fun hs => ordered_drop (fun other a _ => hs.activity other a) hs.jobs⟩

theorem still_setAlarm (strand : Strand) (hold : Hold) (g : Gateway σ) :
    Still g (g.setAlarm strand hold) := by
  obtain ⟨agenda, heq⟩ := setAlarm_eq strand hold g
  exact heq ▸ .of_same rfl rfl rfl rfl

theorem still_wait {strand : Strand} {hold : Hold} {rest : List Step}
    (h : (Activity.waits hold rest).IsOrdered strand) (g : Gateway σ) :
    Still g ((g.hold strand (.waits hold rest)).setAlarm strand hold) := by
  have hhold : Still g (g.hold strand (.waits hold rest)) := ⟨rfl, rfl, fun hs => hs.hold h⟩
  exact hhold.trans (still_setAlarm ..)

theorem still_finish (strand : Strand) (result : Result) (g : Gateway σ) :
    Still g (g.finish strand result) :=
  keeps_finish (P := Still g) result (still_drop strand g)
    (fun _ hdrop => hdrop.trans (.of_same rfl rfl rfl rfl))
    (fun _ hdrop => hdrop.trans (still_go fun hs => hs.jobs.finish _))

theorem still_expect (id : Nat) (message : Outbound) (g : Gateway σ) :
    Still g (g.expect id message) := by
  refine ⟨rfl, rfl, fun hs => ⟨fun strand a ha => ?_, hs.jobs⟩⟩
  rw [activity_expect] at ha
  cases hb : g.activity strand with
  | some b =>
    rw [hb] at ha
    cases ha
    exact hs.activity strand _ hb
  | none =>
    rw [hb] at ha
    split at ha
    · -- The activity that was added only hears acknowledgements.
      cases ha
      show ∀ s ∈ acknowledgements id message, s.isStill = true
      rw [acknowledgements]
      split <;> simp [Step.isStill]
    · cases ha

theorem still_requestSteps (clock : Clock) (handler : Handler) (context : Request.Context)
    (payload : Payload) : ∀ s ∈ requestSteps clock handler context payload, s.isStill := by
  intro s hs
  obtain rfl | rfl | ⟨message, rfl⟩ := requestSteps_cases hs <;> rfl

theorem still_arrive (topic : String) (bytes : List UInt8) (qos : Qos) (retained : Bool)
    (g : Gateway σ) : Still g (g.arrive topic bytes qos retained) :=
  keeps_arrive (P := Still g) (.refl g)
    (fun _ _ _ _ hok => still_go fun hs => hs.jobs.submit (still_requestSteps _ _ _ _) hok)
    fun _ _ g' h => h.trans (still_foldl_note _ _ g')

section Faithful

variable (law : Transport.IsFaithful σ)

include law

theorem still_hand (message : Outbound) (g : Gateway σ) : Still g (g.hand message).2 :=
  keeps_hand (P := Still g) (.of_same rfl (law.publish message g.transport) rfl rfl)
    fun _ g' h => h.trans (still_expect _ _ g')

theorem still_handTracked (message : Outbound) (g : Gateway σ) :
    Still g (g.handTracked message).2 :=
  keeps_handTracked (P := Still g) (fun _ _ h => h.trans (.of_same rfl rfl rfl rfl))
    (fun g' h => h.trans (still_hand law message g')) (.refl g)

theorem still_deliver (message : Message) (handOver : Bool) (g : Gateway σ) :
    Still g (g.deliver message handOver).2 :=
  keeps_deliver (.refl g) (still_hand law · g) (still_handTracked law · g) message handOver

theorem still_subscribeTo (filter : String) (qos : Qos) (g : Gateway σ) :
    Still g (g.subscribeTo filter qos) :=
  .of_same rfl (law.subscribe filter qos g.transport) rfl rfl

theorem still_unsubscribeFrom (filter : String) (g : Gateway σ) :
    Still g (g.unsubscribeFrom filter) :=
  .of_same rfl (law.unsubscribe filter g.transport) rfl rfl

theorem still_resubscribe (g : Gateway σ) : Still g g.resubscribe :=
  keeps_resubscribe (P := Still g)
    (fun filter qos g' h => h.trans (still_subscribeTo law filter qos g')) (.refl g)

theorem still_reconcile (isNew : Bool) (g : Gateway σ) : Still g (g.reconcile isNew) :=
  keeps_reconcile (P := Still g)
    (fun filter qos g' h => h.trans (still_subscribeTo law filter qos g'))
    (fun filter g' h => h.trans (still_unsubscribeFrom law filter g'))
    (fun _ _ h => h.trans (.of_same rfl rfl rfl rfl)) isNew (.refl g)

theorem still_take {s : Step} (h : s.isStill) (g : Gateway σ) : Still g (g.take s).2 := by
  cases s with
  | enter | closeTransport => cases h
  | dropPending | pause | note => exact .of_same rfl rfl rfl rfl
  | certificate kind => exact still_deliver law ..
  | flush | publish =>
    rw [take]
    split
    · exact .refl g
    · exact still_deliver law ..
  | reconcile isNew => exact still_reconcile law isNew g
  | resubscribe => exact still_resubscribe law g
  | tell event => exact still_foldl_note ..
  | closePool =>
    rw [take]
    split
    · exact .refl g
    · -- The pool is closed, and those who left already are seen off.
      exact (still_go fun hs => hs.jobs.close _).trans (still_go fun hs => hs.jobs.closing _)
  | acknowledge id topic ack => exact still_acknowledge ..

theorem still_run (strand : Strand) {steps : List Step} (h : ∀ s ∈ steps, s.isStill)
    (result : Result) (g : Gateway σ) : Still g (g.run strand steps result) :=
  keeps_run (P := Still g)
    (fun _ hs g' hg => hg.trans (still_take law hs g'))
    (fun _ _ hrest g' hg => hg.trans (still_wait (.inl hrest) g'))
    (fun result g' hg => hg.trans (still_finish strand result g')) h result (.refl g)

theorem still_turnOf {g : Gateway σ} (hs : g.Ordered) (strand : Strand) :
    Still g (g.turnOf strand) := by
  unfold turnOf
  split
  · exact still_go fun hs => hs.jobs.turn _
  · next number =>
    split
    · next steps hsteps =>
      obtain ⟨before, behind, hactive, -⟩ := List.lookup_eq_some_iff.1 hsteps
      have hmem : (number, steps) ∈ g.pool.active := by simp [hactive]
      exact still_run law _ (hs.jobs.active _ hmem) _ g
    · exact .refl g
  · next generation =>
    split
    · exact .refl g
    · exact .of_same rfl rfl rfl rfl
    · next debouncer _ =>
      have hflush : Still g { g with debouncer := debouncer.flushed } := .of_same rfl rfl rfl rfl
      refine hflush.trans (still_run law _ (fun s hs => ?_) _ _)
      obtain ⟨_, -, rfl⟩ := List.mem_map.1 hs
      rfl
  · exact .refl g

/-! ## 2. Runs that set the state -/

/-- A gateway that finds a connection is connected, whatever it goes on to do. -/
theorem run_established (strand : Strand) (more : List Step) (h : ∀ s ∈ more, s.isStill)
    (result : Result) (g : Gateway σ) :
    Still { g with state := .connected } (g.run strand (establishedSteps ++ more) result) := by
  show Still _ (({ g with state := .connected } : Gateway σ).run strand
    (.dropPending :: .certificate .birth :: .reconcile true :: .resubscribe :: more) nothing)
  refine still_run law strand (fun s hs => ?_) _ _
  simp only [List.mem_cons] at hs
  rcases hs with rfl | rfl | rfl | rfl | hs
  · rfl
  · rfl
  · rfl
  · rfl
  · exact h s hs

/-- When the leave was taken the link goes down, and the gateway is no longer connected. -/
theorem run_parting (strand : Strand) {rest : List Step} (h : IsParting rest) (result : Result)
    (g : Gateway σ) : (g.run strand rest result).state = .disconnected ∧
      (g.run strand rest result).isConnected = false ∧
      (g.Ordered → (g.run strand rest result).Ordered) := by
  obtain ⟨more, rfl, hmore⟩ := h
  let closed : Gateway σ :=
    { g with transport := Transport.endClose g.transport, state := .disconnected }
  have hstill : Still closed (closed.run strand more nothing) := still_run law strand hmore _ _
  refine ⟨hstill.state, ?_, fun hs => hstill.ordered (hs.of_same rfl rfl)⟩
  exact hstill.link.trans (law.endClose g.transport)

/-- A gateway that takes its leave is not connected. It waits with the link still up, or the link is
down. -/
theorem run_leaving (caller : Caller) {rest : List Step} (h : IsParting rest) (result : Result)
    (g : Gateway σ) :
    let g' := g.run (.call caller) (disconnectingSteps ++ rest) result
    g'.state ≠ .connected ∧ (g.Ordered → g'.Ordered) ∧
      (g'.isConnected = false ∨
        ∃ hold, g'.activity (.call caller) = some (.waits hold rest)) := by
  intro g'
  let left : Gateway σ := { g with state := .disconnecting, debouncer := g.debouncer.cancel }
  have hleft : g.Ordered → left.Ordered := fun hs => hs.of_same rfl rfl
  have hdeliver := still_deliver law (left.certificate .disconnect) false left
  have hrun : g' = left.run (.call caller) (.certificate .disconnect :: rest) nothing := rfl
  rcases run_certificate (.call caller) .disconnect rest nothing left with ⟨hold, h'⟩ | ⟨result', h'⟩
  · -- The certificate has to be acknowledged first, and until then the link stays up.
    have hordered : (Activity.waits hold rest).IsOrdered (.call caller) := .inr ⟨⟨caller, rfl⟩, h⟩
    have hwait := still_wait hordered (left.deliver (left.certificate .disconnect) false).2
    rw [hrun, h']
    refine ⟨?_, fun hs => hwait.ordered (hdeliver.ordered (hleft hs)), .inr ⟨hold, ?_⟩⟩
    · simp [hwait.state, hdeliver.state, left]
    · rw [activity_setAlarm, activity_hold, if_pos rfl]
  · obtain ⟨hstate, hlink, hordered⟩ := run_parting law (.call caller) h result'
      (left.deliver (left.certificate .disconnect) false).2
    rw [hrun, h']
    refine ⟨?_, fun hs => hordered (hdeliver.ordered (hleft hs)), .inl hlink⟩
    simp [hstate]

end Faithful

theorem Looks.still {g g' : Gateway σ} (h : Looks g g') : Still g g' := by
  cases h with
  | same => exact .refl g
  | asks tracker => exact .of_same rfl rfl rfl rfl
  | seesOff => exact still_go fun hs => hs.jobs.closing _

theorem still_look (strand : Strand) {hold : Hold} (rest : List Step) {g : Gateway σ}
    (h : g.isOver hold = false) : Still g (g.look strand hold rest) ∧
      (g.look strand hold rest).activities = g.activities := by
  obtain ⟨g', hlooks, hcases⟩ := look_cases strand hold rest g
  have hsame : g'.activities = g.activities := by cases hlooks <;> rfl
  obtain ⟨-, hlook | hlook⟩ | ⟨hover, -⟩ := hcases
  · rw [hlook]
    exact ⟨hlooks.still, hsame⟩
  · obtain ⟨agenda, halarm⟩ := setAlarm_eq strand hold g'
    rw [hlook]
    refine ⟨hlooks.still.trans (still_setAlarm ..), ?_⟩
    rw [halarm]
    exact hsame
  · rw [h] at hover
    cases hover

theorem look_eq_run (strand : Strand) {hold : Hold} (rest : List Step) {g : Gateway σ}
    (h : g.isOver hold = true) :
    ∃ g' result, Still g g' ∧ g.look strand hold rest = g'.run strand rest result := by
  obtain ⟨g', hlooks, ⟨hnot, -⟩ | ⟨-, result, hlook⟩⟩ := look_cases strand hold rest g
  · rw [h] at hnot
    cases hnot
  · exact ⟨_, result, hlooks.still.trans (still_drop strand g'), hlook⟩

end Gateway

end Uplink
