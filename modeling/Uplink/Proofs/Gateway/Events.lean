import Uplink.Loopback
import Uplink.Proofs.Gateway.Frames

/-!
# What other events do

Most of what happens between turns changes only who takes part and what is going to be announced.
Callers begin something, requests bring jobs, and whoever changes options or subscribers makes the
transport take calls. Whatever happens, activities and jobs are in order, and what a strand is about
stays so until its own turn.
-/

namespace Uplink

/-- The clock of a gateway that has come up at the epoch. -/
def Clock.epoch : Clock := ⟨⟨0, 0, by decide, by decide, by decide⟩, 0⟩

namespace Gateway

variable {σ : Type} [Transport σ]

/-! ## 1. What events come to -/

/-- An event that concerns neither activities nor jobs, neither options nor subscribers, and not the
transport. -/
def Event.isInert : Event σ → Bool
  | .plan _ | .listen .. | .registerHandler .. | .unregisterHandler _ | .registerApplication _
  | .unregisterApplication _ | .platform _ => true
  | _ => false

theorem inert_apply {e : Event σ} (h : e.isInert) (g : Gateway σ) :
    e.apply g = { g with
      debouncer := (e.apply g).debouncer, handlers := (e.apply g).handlers
      applications := (e.apply g).applications
      connectionListeners := (e.apply g).connectionListeners
      deliveryListeners := (e.apply g).deliveryListeners, agenda := (e.apply g).agenda } := by
  cases e with
  | plan | listen => rfl
  | registerHandler app handler =>
    rw [Event.apply, registerHandler, applicationsChanged]
    split <;> rfl
  | unregisterHandler app =>
    rw [Event.apply, unregisterHandler]
    split
    · dsimp only
      rw [applicationsChanged]
      split <;> rfl
    · rfl
  | registerApplication app =>
    rw [Event.apply, registerApplication]
    split
    · rfl
    · rw [applicationsChanged]
      split <;> rfl
  | unregisterApplication app =>
    rw [Event.apply, unregisterApplication]
    split
    · dsimp only
      rw [applicationsChanged]
      split <;> rfl
    · rfl
  | platform event =>
    rw [Event.apply, platformEvent]
    split <;> rfl
  | _ => cases h

/-- Options that are accepted are in force at once. On a connection that is up, a birth is due and
the filter for the gateway itself is brought in line. -/
theorem configure_eq_ok {g g' : Gateway σ} {options : Options} (h : g.configure options = .ok g') :
    g' = if g.isConnected then (schedule .birth { g with options }).reconcile false
      else { g with options } := by
  unfold configure at h
  split at h
  · cases h
  · split at h
    · cases h
      rfl
    · cases h

theorem asks_of_configure {g g' : Gateway σ} {options : Options}
    (h : g.configure options = .ok g') :
    ∃ list debouncer defaultFilter agenda,
      Asks list { g with options, debouncer, defaultFilter, agenda } g' := by
  rw [configure_eq_ok h]
  split
  · exact ⟨_, _, _, _, asks_reconcile false (schedule .birth { g with options })⟩
  · exact ⟨[], _, _, _, .refl _⟩

/-- A subscriber of a record that is new makes it known to the transport. -/
theorem registerSubscriber_eq (r : SubscriptionRecord) (subscriber : String) (g : Gateway σ) :
    ∃ list, (list = if (g.subscriptions.add r subscriber).1 && g.isConnected then [(r.filter, true)]
        else []) ∧
      Asks list { g with subscriptions := (g.subscriptions.add r subscriber).2 }
        (g.registerSubscriber r subscriber) := by
  unfold registerSubscriber
  dsimp only
  refine ⟨_, rfl, ?_⟩
  change Asks (if (g.subscriptions.add r subscriber).1 && g.isConnected then _ else _) _
    (if (g.subscriptions.add r subscriber).1 && g.isConnected then _ else _)
  split
  · exact asks_subscribeTo _ _ _
  · exact .refl _

/-- The records that a subscriber leaves without anybody are taken back. -/
theorem unregisterSubscriber_eq (subscriber : String) (g : Gateway σ) :
    Asks (if g.isConnected then
        (g.subscriptions.remove subscriber).1.map fun r => (r.filter, false)
      else [])
      { g with subscriptions := (g.subscriptions.remove subscriber).2 }
      (g.unregisterSubscriber subscriber) := by
  unfold unregisterSubscriber
  change Asks _ _ (if g.isConnected then _ else _)
  split
  · exact asks_foldl_unsubscribeFrom _ _
  · exact .refl _

/-! ## 2. What events leave alone -/

/-- What is left alone by an event that is not a turn. -/
structure Event.Leaves (e : Event σ) (g g' : Gateway σ) : Prop where
  activity : ∀ strand, g'.activity strand = g.activity strand ∨
    g.activity strand = none ∧ ∃ caller, strand = .call caller
  notes : g.notes <+: g'.notes
  options : (∀ options, e ≠ .configure options) → g'.options = g.options
  stopping : g'.stopping = g.stopping
  pool : (∀ text bytes qos retained, e ≠ .arrive text bytes qos retained) → g'.pool = g.pool
  size : g'.pool.size = g.pool.size
  tracker : g.tracker.Renews g'.tracker

namespace Event.Leaves

variable {e : Event σ} {g g' g'' : Gateway σ}

omit [Transport σ]

theorem trans (h : e.Leaves g g') (h' : e.Leaves g' g'') : e.Leaves g g'' where
  activity strand := by
    obtain heq | hnew := h.activity strand
    · exact (h'.activity strand).imp (·.trans heq) fun hnew' => ⟨heq ▸ hnew'.1, hnew'.2⟩
    · exact .inr hnew
  notes := h.notes.trans h'.notes
  options he := (h'.options he).trans (h.options he)
  stopping := h'.stopping.trans h.stopping
  pool he := (h'.pool he).trans (h.pool he)
  size := h'.size.trans h.size
  tracker := h.tracker.trans h'.tracker

theorem of_inert (h : g' = { g with
    transport := g'.transport, debouncer := g'.debouncer, handlers := g'.handlers
    applications := g'.applications, subscriptions := g'.subscriptions
    defaultFilter := g'.defaultFilter, connectionListeners := g'.connectionListeners
    deliveryListeners := g'.deliveryListeners, agenda := g'.agenda }) : e.Leaves g g' := by
  rw [h]
  exact ⟨fun _ => .inl rfl, List.prefix_rfl, fun _ => rfl, rfl, fun _ => rfl, rfl, .refl _⟩

theorem refl (e : Event σ) (g : Gateway σ) : e.Leaves g g := of_inert rfl

theorem note (h : e.Leaves g g') (new : List Note) :
    e.Leaves g { g' with notes := g'.notes ++ new } :=
  { h with notes := h.notes.trans (List.prefix_append ..) }

theorem of_asks {list : List (String × Bool)} (h : Asks list g g') : e.Leaves g g' := by
  obtain ⟨new, hnotes, -⟩ := h.notes
  have hinert : e.Leaves g { g with transport := g'.transport } := .of_inert rfl
  rw [h.same, hnotes]
  exact hinert.note new

end Event.Leaves

/-- **What every event but a turn leaves alone.** -/
theorem leaves_apply {e : Event σ} (hturn : ∀ strand, e ≠ .turn strand) (g : Gateway σ) :
    e.Leaves g (e.apply g) := by
  cases e with
  | turn strand => exact absurd rfl (hturn strand)
  | link => exact .of_inert rfl
  | ask caller call =>
    rw [Event.apply]
    split
    · next hdone =>
      refine { Event.Leaves.refl _ g with activity := fun strand => ?_ }
      show (g.hold (.call caller) _).activity strand = _ ∨ _
      rw [activity_hold]
      split
      · next heq => exact .inr ⟨heq ▸ Option.isNone_iff_eq_none.1 hdone, caller, heq⟩
      · exact .inl rfl
    · exact .refl _ g
  | configure options =>
    rw [Event.apply]
    cases hok : g.configure options with
    | error fault => exact .refl _ g
    | ok g' =>
      obtain ⟨list, debouncer, defaultFilter, agenda, hasks⟩ := asks_of_configure hok
      have hoptions : Event.Leaves (.configure options) g
          { g with options, debouncer, defaultFilter, agenda } :=
        { Event.Leaves.refl _ g with options := fun he => absurd rfl (he options) }
      exact hoptions.trans (.of_asks hasks)
  | registerSubscriber r subscriber =>
    obtain ⟨list, -, hasks⟩ := registerSubscriber_eq r subscriber g
    have hadd : Event.Leaves (.registerSubscriber r subscriber) g
        { g with subscriptions := (g.subscriptions.add r subscriber).2 } := .of_inert rfl
    exact hadd.trans (.of_asks hasks)
  | unregisterSubscriber subscriber =>
    have hremove : Event.Leaves (.unregisterSubscriber subscriber) g
        { g with subscriptions := (g.subscriptions.remove subscriber).2 } := .of_inert rfl
    exact hremove.trans (.of_asks (unregisterSubscriber_eq subscriber g))
  | arrive text bytes qos retained =>
    refine keeps_arrive (P := Event.Leaves (.arrive text bytes qos retained) g) (.refl _ g)
      (fun _ _ _ result hok => ?_) fun _ _ g' h => ?_
    · -- Only the queue of the pool changes.
      have hsize : result.2.size = g.pool.size := by
        rw [Pool.submit_eq_ok hok]
        rfl
      exact { Event.Leaves.refl _ g with
        pool := fun he => absurd rfl (he text bytes qos retained), size := hsize }
    · rw [foldl_note]
      exact h.note _
  | acknowledge id topic ack =>
    have htrack : Event.Leaves (.acknowledge id topic ack) g
        (g.track (g.tracker.resolve id ack).2) :=
      { Event.Leaves.refl _ g with tracker := g.tracker.renews_resolve id ack }
    rw [Event.apply, acknowledge, tellDelivery, foldl_note]
    exact htrack.note _
  | _ =>
    rw [inert_apply rfl g]
    exact .of_inert rfl

/-- An event is the turn of a strand, which spares the others, or it leaves most of all alone. -/
theorem spares_or_leaves (e : Event σ) (g : Gateway σ) :
    (∃ strand, e = .turn strand ∧ Spares strand g (e.apply g)) ∨ e.Leaves g (e.apply g) := by
  by_cases hturn : ∃ strand, e = .turn strand
  · obtain ⟨strand, rfl⟩ := hturn
    exact .inl ⟨strand, rfl, spares_turn strand g⟩
  · exact .inr (leaves_apply (not_exists.1 hturn) g)

/-- **What a strand is about stays so until its own turn.** -/
theorem activity_apply {g : Gateway σ} {strand : Strand} {a : Activity}
    (ha : g.activity strand = some a) {e : Event σ} (he : e ≠ .turn strand) :
    (e.apply g).activity strand = some a := by
  obtain ⟨other, rfl, hspares⟩ | hleaves := spares_or_leaves e g
  · exact hspares.activity_of_some (fun heq => he (heq ▸ rfl)) ha
  · obtain heq | ⟨hnone, -⟩ := hleaves.activity strand
    · exact heq.trans ha
    · rw [hnone] at ha
      cases ha

/-- Only callers and the acknowledgements of messages come from outside. What another strand is
about begins in its own turn. -/
theorem activity_apply_eq {strand : Strand} {e : Event σ} (he : e ≠ .turn strand)
    (hcall : ∀ caller, strand ≠ .call caller) (hnumber : ∀ number, strand ≠ .acknowledgement number)
    (g : Gateway σ) : (e.apply g).activity strand = g.activity strand := by
  obtain ⟨other, rfl, hspares⟩ | hleaves := spares_or_leaves e g
  · exact hspares.activity_eq (fun heq => he (heq ▸ rfl)) hnumber
  · obtain heq | ⟨-, caller, hcaller⟩ := hleaves.activity strand
    · exact heq
    · exact absurd hcaller (hcall caller)

/-! ## 3. Calm events -/

/-- An event that has to do neither with the connection nor with what is wanted on it. -/
def Event.isPlain (g : Gateway σ) : Event σ → Bool
  | .turn strand => g.deed strand == .nothing
  | .configure _ | .registerSubscriber .. | .unregisterSubscriber _ => false
  | _ => true

/-- A new connection is announced. -/
def Event.opens (g : Gateway σ) : Event σ → Bool
  | .turn strand => g.deed strand == .opens
  | _ => false

omit [Transport σ] in
theorem quiet_requestSteps (clock : Clock) (handler : Handler) (context : Request.Context)
    (payload : Payload) : ∀ s ∈ requestSteps clock handler context payload, s.isQuiet := by
  intro s hs
  obtain rfl | rfl | ⟨message, rfl⟩ := requestSteps_cases hs <;> rfl

omit [Transport σ] in
theorem steady_arrive (topic : String) (bytes : List UInt8) (qos : Qos) (retained : Bool)
    (g : Gateway σ) : Steady false g (g.arrive topic bytes qos retained) :=
  keeps_arrive (P := Steady false g) (.refl _ g)
    (fun _ _ _ _ hok => steady_go fun hs => hs.jobs.submit (quiet_requestSteps _ _ _ _) hok)
    fun _ _ g' h => h.trans (steady_foldl_note _ (fun _ => rfl) _ g')

theorem steady_apply {g : Gateway σ} (hs : g.Sound) {e : Event σ} (h : e.isPlain g) :
    Steady (!g.stopping) g (e.apply g) := by
  cases e with
  | turn strand => exact steady_turn hs (eq_of_beq h)
  | link => exact .weaken (.of_inert rfl)
  | ask caller call =>
    rw [Event.apply]
    split
    · next hdone =>
      have hfree : g.IsFree (.call caller) := fun a ha => by
        rw [isDone, Option.isNone_iff_eq_none] at hdone
        rw [show g.activity (.call caller) = none from hdone] at ha
        cases ha
      have hsound : (Activity.begins call).IsSound (.call caller) := ⟨caller, rfl⟩
      exact ((steady_hold hsound hfree rfl).trans (steady_wake _ _)).weaken
    · exact .refl _ g
  | configure | registerSubscriber | unregisterSubscriber => cases h
  | arrive topic bytes qos retained => exact (steady_arrive topic bytes qos retained g).weaken
  | acknowledge id topic ack => exact (steady_acknowledge id topic ack g).weaken
  | _ =>
    rw [inert_apply rfl g]
    exact .weaken (.of_inert rfl)

/-! ## 4. What all events keep -/

theorem notes_apply (e : Event σ) (g : Gateway σ) : g.notes <+: (e.apply g).notes := by
  obtain ⟨_, -, hspares⟩ | hleaves := spares_or_leaves e g
  · exact hspares.notes
  · exact hleaves.notes

theorem stopping_apply {g : Gateway σ} (h : g.stopping = true) (e : Event σ) :
    (e.apply g).stopping = true := by
  obtain ⟨_, -, hspares⟩ | hleaves := spares_or_leaves e g
  · exact hspares.stopping h
  · exact hleaves.stopping.trans h

theorem sound_setUp {g : Gateway σ} (hs : g.Sound) : (g.reconcile true).resubscribe.Sound :=
  (asks_setUp g).sound ⟨hs.1, hs.2⟩

theorem sound_turn {g : Gateway σ} (hs : g.Sound) (strand : Strand) : (g.turn strand).Sound := by
  cases h : g.deed strand with
  | nothing => exact (steady_turn hs h).sound hs
  | opens =>
    obtain ⟨g₁, hcalm, -, hsetUp⟩ := turn_opens hs h
    have hs₁ : g₁.Sound := hcalm.sound ⟨hs.1, hs.2⟩
    cases hsetUp with
    | waits hcalm' => exact hcalm'.sound hs₁
    | done hcalm' => exact hcalm'.sound (sound_setUp hs₁)
  | leaves =>
    obtain ⟨g₀, hcalm, hcalm'⟩ := turn_leaves hs h
    exact hcalm'.sound ((steady_deliver _ _ g₀).sound (hcalm.sound hs))
  | setsUp =>
    obtain ⟨g₁, hcalm, hcalm'⟩ := turn_setsUp hs h
    exact hcalm'.sound (sound_setUp (hcalm.sound hs))
  | closes => exact (turn_closes hs h).sound hs

theorem sound_apply {g : Gateway σ} (hs : g.Sound) (e : Event σ) : (e.apply g).Sound := by
  cases e with
  | turn strand => exact sound_turn hs strand
  | configure options =>
    rw [Event.apply]
    cases h : g.configure options with
    | error e => exact hs
    | ok g' =>
      obtain ⟨_, _, _, _, hasks⟩ := asks_of_configure h
      exact hasks.sound ⟨hs.1, hs.2⟩
  | registerSubscriber r subscriber =>
    obtain ⟨list, -, hasks⟩ := registerSubscriber_eq r subscriber g
    exact hasks.sound ⟨hs.1, hs.2⟩
  | unregisterSubscriber subscriber =>
    exact (unregisterSubscriber_eq subscriber g).sound ⟨hs.1, hs.2⟩
  | _ => exact (steady_apply hs rfl).sound hs

theorem sound_after {g : Gateway σ} (hs : g.Sound) (events : List (Event σ)) :
    (g.after events).Sound :=
  after_induction events hs fun _ e h => sound_apply h e

/-! ## 5. New gateways -/

structure IsNew (g : Gateway σ) : Prop where
  activities : g.activities = []
  queue : g.pool.queue = []
  active : g.pool.active = []
  notes : g.notes = []
  subscriptions : g.subscriptions = []
  stopping : g.stopping = false
  state : g.state = .disconnected

omit [Transport σ] in
theorem isNew_of_create {options : Options} {transport : σ} {device : Device} {clock : Clock}
    {verifier : Option (Topic → Payload → Bool)} {g : Gateway σ}
    (h : create options transport device clock verifier = .ok g) : g.IsNew := by
  unfold create at h
  split at h
  · cases h
  · cases h
    exact ⟨rfl, rfl, rfl, rfl, rfl, rfl, rfl⟩

omit [Transport σ] in
theorem IsNew.sound {g : Gateway σ} (h : g.IsNew) : g.Sound := by
  refine ⟨fun strand a ha => ?_, ?_, ?_⟩
  · rw [activity, h.activities] at ha
    cases ha
  · rw [h.queue]
    simp
  · rw [h.active]
    simp

/-- A gateway on a loopback transport, as it is made with options that are all left as they are. -/
def loopback : Gateway Loopback :=
  { options := {}, device := {}, clock := .epoch, transport := {}, pool := Pool.ofSize 2
    agenda := { ready := [.pool (.worker 0), .pool (.worker 1)] } }

theorem create_loopback : create {} {} {} .epoch none = .ok loopback := rfl

end Gateway

end Uplink
