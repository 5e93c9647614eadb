import Uplink.Proofs.Gateway.History
import Uplink.Proofs.Gateway.Keeping
import Uplink.Proofs.Pool.Jobs

/-!
# Calm events

Most of what a gateway does touches neither its options nor its subscriptions, and calls for none.
The module says of every step, and then of every event, whether it is of that kind, and what the
others do. It rests on what activities can be about when they wait: a connection that is set up or
closed, or else steps that are calm themselves.
-/

namespace Uplink.Gateway

variable {σ : Type}

/-! ## 1. Notes and steps -/

def Note.isTold : Note → Bool
  | .published .. | .subscribed .. | .unsubscribed .. => false
  | _ => true

/-- A message was handed to the transport, which may have refused it. -/
def Note.isPublished : Note → Bool
  | .published .. => true
  | _ => false

/-- A step that belongs neither to setting up a connection nor to closing one. -/
def Step.isQuiet : Step → Bool
  | .enter state => state != .connected
  | .certificate _ | .reconcile _ | .resubscribe | .closeTransport => false
  | .note n => n.isTold
  | _ => true

/-- A step that does without the transport. -/
def Step.isInternal : Step → Bool
  | .enter _ | .dropPending | .tell _ | .closePool | .pause _ | .note _ | .acknowledge .. => true
  | _ => false

/-- What is left to do for a new connection when its birth was published. -/
def IsSetUp (steps : List Step) : Prop :=
  ∃ more, steps = .reconcile true :: .resubscribe :: more ∧ ∀ s ∈ more, s.isQuiet

/-- What is left to do for a connection that is closed when the leave was taken. -/
def IsClosing (steps : List Step) : Prop :=
  ∃ more, steps = .closeTransport :: more ∧ ∀ s ∈ more, s.isQuiet ∧ s.isInternal

/-- What an activity of a strand can be about. -/
def Activity.IsSound (strand : Strand) : Activity → Prop
  | .begins _ => ∃ caller, strand = .call caller
  | .steps todo => ∀ s ∈ todo, s.isQuiet
  | .waits _ rest =>
    (∀ s ∈ rest, s.isQuiet) ∨ (∃ caller, strand = .call caller) ∧ (IsSetUp rest ∨ IsClosing rest)

/-- A connection is being set up or closed. -/
def Activity.isUnderWay : Activity → Bool
  | .waits _ (.reconcile _ :: _) | .waits _ (.closeTransport :: _) => true
  | _ => false

def Activity.isSettingUp : Activity → Bool
  | .waits _ (.reconcile _ :: _) => true
  | _ => false

theorem Activity.isUnderWay_of_isSettingUp {a : Activity} (h : a.isSettingUp = true) :
    a.isUnderWay = true := by
  unfold isSettingUp at h
  split at h
  · rfl
  · cases h

theorem not_isUnderWay_of_quiet {hold : Hold} {rest : List Step} (h : ∀ s ∈ rest, s.isQuiet) :
    (Activity.waits hold rest).isUnderWay = false := by
  cases rest with
  | nil => rfl
  | cons s rest =>
    have hs := h s List.mem_cons_self
    cases s <;> first | rfl | cases hs

/-! ## 2. The activity of a strand -/

def activity (g : Gateway σ) (strand : Strand) : Option Activity := g.activities.lookup strand

@[simp] theorem activity_drop (strand other : Strand) (g : Gateway σ) :
    (g.drop strand).activity other = if other = strand then none else g.activity other :=
  lookup_filter_ne strand other g.activities

@[simp] theorem activity_hold (strand other : Strand) (a : Activity) (g : Gateway σ) :
    (g.hold strand a).activity other = if other = strand then some a else g.activity other :=
  lookup_filter_ne_append strand other a g.activities

/-! ## 3. Gateways whose activities are in order -/

/-- Every activity is about what an activity can be about, and so is every job. -/
structure Sound (g : Gateway σ) : Prop where
  activity : ∀ strand a, g.activity strand = some a → a.IsSound strand
  jobs : g.pool.AllJobs fun job => ∀ s ∈ job, s.isQuiet

/-- From one gateway to the other, nothing happened but that some were told something and, where it
is permitted, that messages were handed to the transport. -/
structure Calm (hands : Bool) (g g' : Gateway σ) : Prop where
  options : g'.options = g.options
  subscriptions : g'.subscriptions = g.subscriptions
  defaultFilter : g'.defaultFilter = g.defaultFilter
  stopping : g.stopping → g'.stopping
  state : g'.state = .connected → g.state = .connected
  notes : ∃ new, g'.notes = g.notes ++ new ∧ ∀ n ∈ new, n.isTold || hands && n.isPublished
  sound : g.Sound → g'.Sound

/-- Moreover, no connection has begun to be set up or closed, or ceased to. -/
structure Steady (hands : Bool) (g g' : Gateway σ) : Prop extends Calm hands g g' where
  underWay : ∀ strand a, a.isUnderWay → (g'.activity strand = some a ↔ g.activity strand = some a)

namespace Calm

variable {hands : Bool} {g g' g'' : Gateway σ}

theorem trans (h : Calm hands g g') (h' : Calm hands g' g'') : Calm hands g g'' := by
  obtain ⟨new, hnew, hall⟩ := h.notes
  obtain ⟨more, hmore, hmall⟩ := h'.notes
  refine ⟨h'.options.trans h.options, h'.subscriptions.trans h.subscriptions,
    h'.defaultFilter.trans h.defaultFilter, fun hs => h'.stopping (h.stopping hs),
    fun hs => h.state (h'.state hs), ⟨new ++ more, ?_, ?_⟩, fun hs => h'.sound (h.sound hs)⟩
  · rw [hmore, hnew, List.append_assoc]
  · intro n hn
    rcases List.mem_append.1 hn with hn | hn
    · exact hall n hn
    · exact hmall n hn

theorem weaken (h : Calm false g g') : Calm hands g g' := by
  obtain ⟨new, hnew, hall⟩ := h.notes
  refine { h with notes := ⟨new, hnew, fun n hn => ?_⟩ }
  have := hall n hn
  simp only [Bool.false_and, Bool.or_false] at this
  rw [this, Bool.true_or]

theorem loosen (h : Calm hands g g') : Calm true g g' := by
  cases hands with
  | true => exact h
  | false => exact h.weaken

theorem enter (h : Calm hands g g') (state : State) (debouncer : Debouncer Message) :
    Calm hands { g with state } { g' with state, debouncer } :=
  ⟨h.options, h.subscriptions, h.defaultFilter, h.stopping, id, h.notes, fun hs =>
    have hs' := h.sound ⟨hs.1, hs.2⟩
    ⟨hs'.1, hs'.2⟩⟩

/-- A gateway that is stopping hands nothing over, then or later. -/
theorem andThen (h : Calm (!g.stopping) g g') (h' : Calm (!g'.stopping) g' g'') :
    Calm (!g.stopping) g g'' := by
  cases hs : g.stopping with
  | true =>
    rw [hs] at h
    rw [h.stopping hs] at h'
    exact h.trans h'
  | false =>
    rw [hs] at h
    cases hs' : g'.stopping with
    | true => exact h.trans (hs' ▸ h').weaken
    | false => exact h.trans (hs' ▸ h')

end Calm

namespace Steady

variable {hands : Bool} {g g' g'' : Gateway σ}

theorem refl (hands : Bool) (g : Gateway σ) : Steady hands g g :=
  ⟨⟨rfl, rfl, rfl, id, id, ⟨[], by simp, by simp⟩, id⟩, fun _ _ _ => .rfl⟩

theorem trans (h : Steady hands g g') (h' : Steady hands g' g'') : Steady hands g g'' :=
  ⟨h.toCalm.trans h'.toCalm, fun strand a hu =>
    (h'.underWay strand a hu).trans (h.underWay strand a hu)⟩

theorem weaken (h : Steady false g g') : Steady hands g g' := ⟨h.toCalm.weaken, h.underWay⟩

theorem andThen (h : Steady (!g.stopping) g g') (h' : Steady (!g'.stopping) g' g'') :
    Steady (!g.stopping) g g'' :=
  ⟨h.toCalm.andThen h'.toCalm, fun strand a hu =>
    (h'.underWay strand a hu).trans (h.underWay strand a hu)⟩

end Steady

/-- No connection is set up or closed by a strand. -/
def IsFree (g : Gateway σ) (strand : Strand) : Prop :=
  ∀ a, g.activity strand = some a → a.isUnderWay = false

theorem Steady.isFree {hands : Bool} {g g' : Gateway σ} (h : Steady hands g g') {strand : Strand}
    (hfree : g.IsFree strand) : g'.IsFree strand := by
  intro a ha
  cases hu : a.isUnderWay with
  | false => rfl
  | true => rw [hfree a ((h.underWay strand a hu).1 ha)] at hu; cases hu

/-! ## 4. Parts of steps -/

/-- A change of parts that decide neither on subscriptions nor on what activities do. -/
theorem Steady.of_inert {g g' : Gateway σ}
    (h : g' = { g with
      device := g'.device, clock := g'.clock, verifier := g'.verifier, transport := g'.transport
      tracker := g'.tracker, debouncer := g'.debouncer, handlers := g'.handlers
      applications := g'.applications, connectionListeners := g'.connectionListeners
      deliveryListeners := g'.deliveryListeners, acknowledged := g'.acknowledged
      finished := g'.finished, agenda := g'.agenda }) : Steady false g g' := by
  have hactivity : g'.activity = g.activity := by rw [h]; rfl
  have hpool : g'.pool = g.pool := by rw [h]
  refine ⟨⟨by rw [h], by rw [h], by rw [h], fun hs => by rw [h]; exact hs,
    fun hs => by rw [h] at hs; exact hs, ⟨[], by rw [h, List.append_nil], by simp⟩, fun hs => ?_⟩,
    fun _ _ _ => by rw [hactivity]⟩
  exact ⟨by rw [hactivity]; exact hs.activity, by rw [hpool]; exact hs.jobs⟩

theorem steady_wake (strands : List Strand) (g : Gateway σ) : Steady false g (g.wake strands) :=
  .of_inert rfl

theorem steady_note {n : Note} (h : n.isTold) (g : Gateway σ) : Steady false g (g.note n) :=
  ⟨⟨rfl, rfl, rfl, id, id, ⟨[n], rfl, by simp [h]⟩, fun h => ⟨h.1, h.2⟩⟩, fun _ _ _ => .rfl⟩

theorem steady_foldl_note {α : Type} (note : α → Note) (h : ∀ a, (note a).isTold) (list : List α)
    (g : Gateway σ) : Steady false g (list.foldl (fun g a => g.note (note a)) g) := by
  induction list generalizing g with
  | nil => exact .refl _ g
  | cons a list ih => exact (steady_note (h a) g).trans (ih _)

theorem steady_tell (event : ConnectionEvent) (g : Gateway σ) : Steady false g (g.tell event) :=
  steady_foldl_note _ (fun _ => rfl) _ g

theorem steady_track (tracker : Delivery.Tracker) (g : Gateway σ) :
    Steady false g (g.track tracker) :=
  .of_inert rfl

theorem steady_acknowledge (id : Nat) (topic : String) (ack : Delivery.Acknowledgement)
    (g : Gateway σ) : Steady false g (g.acknowledge id topic ack) :=
  (steady_track _ g).trans (steady_foldl_note _ (fun _ => rfl) _ _)

theorem steady_go {g : Gateway σ} {result : List Pool.Strand × Pool (List Step)}
    (h : g.Sound → result.2.AllJobs fun job => ∀ s ∈ job, s.isQuiet) :
    Steady false g (g.go result) :=
  ⟨⟨rfl, rfl, rfl, id, id, ⟨[], (List.append_nil _).symm, by simp⟩, fun hs => ⟨hs.1, h hs⟩⟩,
    fun _ _ _ => .rfl⟩

theorem calm_drop (strand : Strand) (g : Gateway σ) : Calm false g (g.drop strand) := by
  refine ⟨rfl, rfl, rfl, id, id, ⟨[], (List.append_nil _).symm, by simp⟩,
    fun hs => ⟨fun other a ha => ?_, hs.jobs⟩⟩
  rw [activity_drop] at ha
  split at ha
  · cases ha
  · exact hs.activity other a ha

theorem isFree_drop (strand : Strand) (g : Gateway σ) : (g.drop strand).IsFree strand := by
  intro a ha
  rw [activity_drop, if_pos rfl] at ha
  cases ha

theorem steady_drop {strand : Strand} {g : Gateway σ} (h : g.IsFree strand) :
    Steady false g (g.drop strand) := by
  refine ⟨calm_drop strand g, fun other a hu => ?_⟩
  rw [activity_drop]
  split
  · next heq =>
    subst heq
    exact ⟨fun ha => (nomatch ha), fun ha => by rw [h a ha] at hu; cases hu⟩
  · exact .rfl

theorem calm_hold {strand : Strand} {activity : Activity} (hsound : activity.IsSound strand)
    (g : Gateway σ) : Calm false g (g.hold strand activity) := by
  refine ⟨rfl, rfl, rfl, id, id, ⟨[], (List.append_nil _).symm, by simp⟩,
    fun hs => ⟨fun other a ha => ?_, hs.jobs⟩⟩
  rw [activity_hold] at ha
  split at ha
  · next heq =>
    cases ha
    exact heq ▸ hsound
  · exact hs.activity other a ha

theorem steady_hold {strand : Strand} {activity : Activity} {g : Gateway σ}
    (hsound : activity.IsSound strand) (h : g.IsFree strand) (hnew : activity.isUnderWay = false) :
    Steady false g (g.hold strand activity) := by
  refine ⟨calm_hold hsound g, fun other a hu => ?_⟩
  rw [activity_hold]
  split
  · next heq =>
    subst heq
    constructor
    · rintro ⟨⟩
      rw [hnew] at hu
      cases hu
    · intro ha
      rw [h a ha] at hu
      cases hu
  · exact .rfl

theorem steady_setAlarm (strand : Strand) (hold : Hold) (g : Gateway σ) :
    Steady false g (g.setAlarm strand hold) := by
  obtain ⟨agenda, heq⟩ := setAlarm_eq strand hold g
  exact heq ▸ .of_inert rfl

theorem calm_wait {strand : Strand} {hold : Hold} {rest : List Step}
    (hsound : (Activity.waits hold rest).IsSound strand) (g : Gateway σ) :
    Calm false g ((g.hold strand (.waits hold rest)).setAlarm strand hold) :=
  (calm_hold hsound g).trans (steady_setAlarm ..).toCalm

theorem steady_wait {strand : Strand} {hold : Hold} {rest : List Step}
    (h : ∀ s ∈ rest, s.isQuiet) {g : Gateway σ} (hfree : g.IsFree strand) :
    Steady false g ((g.hold strand (.waits hold rest)).setAlarm strand hold) := by
  have hsound : (Activity.waits hold rest).IsSound strand := .inl h
  exact (steady_hold hsound hfree (not_isUnderWay_of_quiet h)).trans (steady_setAlarm ..)

theorem steady_finish {strand : Strand} {g : Gateway σ} (result : Result) (h : g.IsFree strand) :
    Steady false g (g.finish strand result) :=
  keeps_finish (P := Steady false g) result (steady_drop h)
    (fun _ hdrop => hdrop.trans (.of_inert rfl))
    (fun _ hdrop => hdrop.trans (steady_go fun hs => hs.jobs.finish _))

@[simp] theorem activity_expect (id : Nat) (message : Outbound) (strand : Strand) (g : Gateway σ) :
    (g.expect id message).activity strand = (g.activity strand).or
      (if strand = .acknowledgement g.acknowledged then
        some (.steps (acknowledgements id message)) else none) := by
  show (g.activities ++ [(_, _)]).lookup strand = _
  rw [List.lookup_append, List.lookup_cons, List.lookup_nil]
  by_cases h : strand = .acknowledgement g.acknowledged
  · rw [if_pos h, h, beq_self_eq_true]
    rfl
  · rw [if_neg h, beq_false_of_ne h]
    rfl

theorem quiet_acknowledgements (id : Nat) (message : Outbound) :
    ∀ s ∈ acknowledgements id message, s.isQuiet := by
  intro s hs
  rw [acknowledgements] at hs
  split at hs <;> simp at hs
  · rw [hs]
    rfl
  · rcases hs with rfl | rfl <;> rfl

theorem steady_expect (id : Nat) (message : Outbound) (g : Gateway σ) :
    Steady false g (g.expect id message) := by
  refine ⟨⟨rfl, rfl, rfl, fun h => h, fun h => h, ⟨[], (List.append_nil _).symm, by simp⟩,
    fun hs => ⟨fun strand a ha => ?_, hs.jobs⟩⟩, fun strand a hu => ?_⟩
  · rw [activity_expect] at ha
    cases hb : g.activity strand with
    | some b =>
      rw [hb] at ha
      cases ha
      exact hs.activity strand _ hb
    | none =>
      rw [hb] at ha
      split at ha
      · cases ha
        exact quiet_acknowledgements id message
      · cases ha
  · rw [activity_expect]
    cases hb : g.activity strand with
    | some b => rfl
    | none =>
      split
      · constructor
        · rintro ⟨⟩
          cases hu
        · exact fun h => nomatch h
      · rfl

/-! ## 5. Quiet steps -/

variable [Transport σ]

theorem steady_hand (message : Outbound) (g : Gateway σ) : Steady true g (g.hand message).2 := by
  refine keeps_hand (P := Steady true g) ?_ fun id g' h => h.trans (steady_expect id message g').weaken
  exact ⟨⟨rfl, rfl, rfl, id, id, ⟨[_], rfl, by simp [Note.isPublished]⟩, fun h => ⟨h.1, h.2⟩⟩,
    fun _ _ _ => .rfl⟩

theorem steady_handTracked (message : Outbound) (g : Gateway σ) :
    Steady true g (g.handTracked message).2 :=
  keeps_handTracked (P := Steady true g) (fun _ _ h => h.trans (steady_track ..).weaken)
    (fun _ h => h.trans (steady_hand ..)) (.refl _ g)

theorem steady_deliver (message : Message) (handOver : Bool) (g : Gateway σ) :
    Steady true g (g.deliver message handOver).2 :=
  keeps_deliver (.refl _ g) (fun _ => steady_hand _ g) (fun _ => steady_handTracked _ g)
    message handOver

/-- A quiet step hands a message over at most, and not even that when the gateway is stopping. -/
theorem steady_take {s : Step} (h : s.isQuiet) (g : Gateway σ) :
    Steady (!g.stopping) g (g.take s).2 := by
  have hdeliver (message : Message) (handOver : Bool) : Steady (!g.stopping) g
      (if g.stopping then (.goesOn nothing, g) else g.deliver message handOver).2 := by
    cases hs : g.stopping with
    | true => exact .refl _ g
    | false => exact steady_deliver message handOver g
  cases s with
  | certificate | reconcile | resubscribe | closeTransport => cases h
  | enter state =>
    refine ⟨⟨rfl, rfl, rfl, id, fun hs => ?_, ⟨[], (List.append_nil _).symm, by simp⟩,
      fun hs => ⟨hs.1, hs.2⟩⟩, fun _ _ _ => .rfl⟩
    rw [show state = .connected from hs] at h
    cases h
  | dropPending => exact .weaken (.of_inert rfl)
  | flush message => exact hdeliver message false
  | publish message => exact hdeliver message true
  | tell event => exact (steady_tell event g).weaken
  | closePool =>
    refine .weaken ?_
    rw [take]
    split
    · exact .refl _ g
    · exact (steady_go fun hs => hs.jobs.close _).trans (steady_go fun hs => hs.jobs.closing _)
  | pause => exact .refl _ g
  | note n => exact (steady_note h g).weaken
  | acknowledge id topic ack => exact (steady_acknowledge id topic ack g).weaken

/-- Quiet steps may also have to wait. -/
theorem steady_run {strand : Strand} {steps : List Step} (h : ∀ s ∈ steps, s.isQuiet)
    (result : Result) {g : Gateway σ} (hfree : g.IsFree strand) :
    Steady (!g.stopping) g (g.run strand steps result) :=
  keeps_run (P := Steady (!g.stopping) g)
    (fun _ hs g' hg => hg.andThen (steady_take hs g'))
    (fun _ _ hrest _ hg => hg.andThen (steady_wait hrest (hg.isFree hfree)).weaken)
    (fun result _ hg => hg.andThen (steady_finish result (hg.isFree hfree)).weaken)
    h result (.refl _ g)

end Uplink.Gateway
