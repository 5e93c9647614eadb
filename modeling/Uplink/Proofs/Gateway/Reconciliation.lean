import Uplink.Proofs.Gateway.Filters
import Uplink.Proofs.Gateway.Registrations

/-!
# The filter for the gateway itself

A gateway to which nobody subscribes asks its transport for one filter at most, and always gives up
the one before first. What it asked for last is what its options want, once the connection that is up
was set up. While that is still going on, other options are compared with what was asked for, and not
with the options that they replace.
-/

namespace Uplink

namespace Gateway

variable {σ : Type}

/-! ## 1. One filter after another -/

/-- The one filter that is live, if there is any. -/
def Holds (calls : List (String × Bool)) (current : Option String) : Prop :=
  ∀ filter, isLive calls filter = true ↔ current = some filter

theorem holds_nil : Holds [] none := fun filter => by simp [isLive]

/-- Whoever goes from one filter to another, on a new connection or not, ends up with the other. -/
theorem Holds.reconciling {calls : List (String × Bool)} {previous : Option String}
    (h : Holds calls previous) (isNew : Bool) (desired : Option String) :
    Holds (calls ++ reconciling isNew previous desired) desired := by
  intro filter
  have hlive := h filter
  rw [Gateway.reconciling, ← List.append_assoc, isLive_append_map, isLive_append_map]
  -- What is given up is the previous filter; what is kept was the previous filter as well.
  cases previous <;> cases desired <;> grind

theorem reconciling_false (previous desired : Option String) :
    reconciling false previous desired =
      if desired = previous then []
      else previous.toList.map (·, false) ++ desired.toList.map (·, true) := by
  rw [reconciling]
  cases previous <;> cases desired <;> grind

/-- From one gateway to the other, filters were left alone, or the transport was brought from the one
remembered to the one that is remembered now. -/
inductive Brings (g g' : Gateway σ) : Prop where
  | leaves (hcalls : g'.calls = g.calls) (hdefault : g'.defaultFilter = g.defaultFilter)
  | reconciles (isNew : Bool)
    (hcalls : g'.calls = g.calls ++ reconciling isNew g.defaultFilter g'.defaultFilter)

theorem Brings.holds {g g' : Gateway σ} (h : Brings g g') (hholds : Holds g.calls g.defaultFilter) :
    Holds g'.calls g'.defaultFilter := by
  cases h with
  | leaves hcalls hdefault => rwa [hcalls, hdefault]
  | reconciles isNew hcalls =>
    rw [hcalls]
    exact hholds.reconciling isNew g'.defaultFilter

theorem Calm.brings {hands : Bool} {g g' : Gateway σ} (h : Calm hands g g') : Brings g g' :=
  .leaves h.calls h.defaultFilter

/-! ## 2. Events of a gateway to which nobody subscribes -/

variable [Transport σ]

def Event.subscribes : Event σ → Bool
  | .registerSubscriber .. => true
  | _ => false

theorem subscriptions_of_nobody {g : Gateway σ} (hs : g.Sound) (hnobody : g.subscriptions = [])
    {e : Event σ} (he : e.subscribes = false) : (e.apply g).subscriptions = [] := by
  rw [subscriptions_apply hs, hnobody]
  cases e <;> first | rfl | cases he

/-- Setting a connection up for nobody else is to go to the filter that is desired. -/
theorem brings_setUp {g g₁ g' : Gateway σ} (hcalls : g₁.calls = g.calls)
    (hdefault : g₁.defaultFilter = g.defaultFilter) (hnobody : g₁.subscriptions = [])
    {hands : Bool} (h : Calm hands (g₁.reconcile true).resubscribe g') : Brings g g' := by
  have hasks := asks_setUp g₁
  have hrecords : (g₁.subscriptions.records.map fun r => (r.filter, true)) = [] := by
    rw [hnobody]
    rfl
  rw [hrecords, List.append_nil] at hasks
  refine .reconciles true ?_
  rw [h.calls, hasks.calls, h.defaultFilter, hasks.defaultFilter, ← hdefault]
  exact congrArg (· ++ _) hcalls

theorem brings_turn {g : Gateway σ} (hs : g.Sound) (hnobody : g.subscriptions = [])
    (strand : Strand) : Brings g (g.turn strand) := by
  cases h : g.deed strand with
  | nothing => exact (steady_turn hs h).brings
  | opens =>
    obtain ⟨g₁, hcalm, -, hsetUp⟩ := turn_opens hs h
    have hcalls : g₁.calls = g.calls := hcalm.calls
    have hdefault : g₁.defaultFilter = g.defaultFilter := hcalm.defaultFilter
    cases hsetUp with
    | waits hcalm' => exact .leaves (hcalm'.calls.trans hcalls) (hcalm'.defaultFilter.trans hdefault)
    | done hcalm' =>
      exact brings_setUp hcalls hdefault (hcalm.subscriptions.trans hnobody) hcalm'
  | leaves =>
    obtain ⟨g₀, hcalm, hcalm'⟩ := turn_leaves hs h
    exact (hcalm.loosen.trans ((steady_deliver _ _ g₀).toCalm.loosen.trans hcalm'.loosen)).brings
  | setsUp =>
    obtain ⟨g₁, hcalm, hcalm'⟩ := turn_setsUp hs h
    exact brings_setUp hcalm.calls hcalm.defaultFilter (hcalm.subscriptions.trans hnobody) hcalm'
  | closes => exact (turn_closes hs h).brings

theorem asks_configure {g g' : Gateway σ} {options : Options} (h : g.configure options = .ok g')
    (hup : g.isConnected = true) :
    g'.calls = g.calls ++ reconciling false g.defaultFilter g'.desiredFilter ∧
      g'.defaultFilter = g'.desiredFilter := by
  have hg' := configure_eq_ok h
  rw [if_pos hup] at hg'
  have hasks := asks_reconcile false (schedule .birth { g with options })
  rw [← hg'] at hasks
  have hdesired : g'.desiredFilter = (schedule .birth { g with options }).desiredFilter :=
    desiredFilter_congr hasks.options
  exact ⟨hdesired ▸ hasks.calls, hasks.defaultFilter.trans hdesired.symm⟩

theorem brings_apply {g : Gateway σ} (hs : g.Sound) (hnobody : g.subscriptions = [])
    {e : Event σ} (he : e.subscribes = false) : Brings g (e.apply g) := by
  by_cases hplain : e.isPlain g = true
  · exact (steady_apply hs hplain).brings
  cases e with
  | turn strand => exact brings_turn hs hnobody strand
  | configure options =>
    rw [Event.apply]
    cases hok : g.configure options with
    | error fault => exact .leaves rfl rfl
    | ok g' =>
      show Brings g g'
      by_cases hup : g.isConnected = true
      · obtain ⟨hcalls, hdefault⟩ := asks_configure hok hup
        exact .reconciles false (hdefault ▸ hcalls)
      · rw [configure_eq_ok hok, if_neg hup]
        exact .leaves rfl rfl
  | registerSubscriber => cases he
  | unregisterSubscriber subscriber =>
    have hasks := unregisterSubscriber_eq subscriber g
    -- Nobody leaves a record without anybody, for there is none.
    have hnone : (g.subscriptions.remove subscriber).1 = [] := by
      rw [hnobody]
      rfl
    rw [hnone, List.map_nil, ite_self] at hasks
    exact .leaves (hasks.calls.trans (List.append_nil _)) hasks.defaultFilter
  | _ => exact absurd rfl hplain

/-! ## 3. Connections that are up -/

def IsSettingUp (g : Gateway σ) : Prop := ∃ strand a, g.activity strand = some a ∧ a.isSettingUp

/-- The transport is up, and the gateway was told so since it came up. -/
def isTold : List (Event σ) → Gateway σ → Bool → Bool
  | [], _, told => told
  | e :: events, g, told =>
    isTold events (e.apply g) ((e.apply g).isConnected && (told || e.opens g))

/-- Unless somebody is about to set a connection up, what is remembered is what the options want. -/
def IsCurrent (g : Gateway σ) : Prop := ¬g.IsSettingUp → g.defaultFilter = g.desiredFilter

omit [Transport σ] in
theorem IsCurrent.of_same {g g' : Gateway σ} (h : g.IsCurrent) {hands : Bool}
    (hcalm : Calm hands g g')
    (hkeeps : ∀ strand a, a.isSettingUp → g.activity strand = some a →
      g'.activity strand = some a) : g'.IsCurrent := by
  intro hfree
  rw [hcalm.defaultFilter, desiredFilter_congr hcalm.options]
  refine h ?_
  rintro ⟨strand, a, ha, hsets⟩
  exact hfree ⟨strand, a, hkeeps strand a hsets ha, hsets⟩

/-- Who takes a turn for something else leaves those who set a connection up alone. -/
theorem IsCurrent.turn_of_calm {g : Gateway σ} (h : g.IsCurrent) {strand : Strand} {hands : Bool}
    (hcalm : Calm hands g (g.turn strand)) {own : Activity}
    (hown : g.activity strand = some own) (hnot : own.isSettingUp = false) :
    (g.turn strand).IsCurrent := by
  refine h.of_same hcalm fun other a hsets ha => ?_
  refine (spares_turn strand g).activity_of_some ?_ ha
  rintro rfl
  rw [hown] at ha
  cases ha
  rw [hnot] at hsets
  cases hsets

theorem isCurrent_of_setUp {g g' : Gateway σ} {hands : Bool}
    (h : Calm hands (g.reconcile true).resubscribe g') : g'.IsCurrent := by
  intro _
  have hasks := asks_setUp g
  exact (h.defaultFilter.trans hasks.defaultFilter).trans
    (desiredFilter_congr (h.options.trans hasks.options)).symm

theorem isCurrent_turn {g : Gateway σ} (hs : g.Sound) (strand : Strand)
    (h : g.deed strand = .opens ∨ g.IsCurrent) : (g.turn strand).IsCurrent := by
  cases hdeed : g.deed strand with
  | opens =>
    obtain ⟨g₁, -, -, hsetUp⟩ := turn_opens hs hdeed
    cases hsetUp with
    | waits _ _ a ha hsets => exact fun hfree => absurd ⟨strand, a, ha, hsets⟩ hfree
    | done hcalm => exact isCurrent_of_setUp hcalm
  | setsUp =>
    obtain ⟨g₁, -, hcalm⟩ := turn_setsUp hs hdeed
    exact isCurrent_of_setUp hcalm
  | nothing =>
    have hsteady := steady_turn hs hdeed
    refine (h.resolve_left (by simp [hdeed])).of_same hsteady.toCalm fun other a hsets ha => ?_
    exact (hsteady.underWay other a (Activity.isUnderWay_of_isSettingUp hsets)).2 ha
  | leaves =>
    obtain ⟨g₀, hcalm, hcalm'⟩ := turn_leaves hs hdeed
    obtain ⟨call, hbegins, -⟩ := begins_of_deed (.inr hdeed)
    have hall := hcalm.loosen.trans ((steady_deliver _ _ g₀).toCalm.loosen.trans hcalm'.loosen)
    exact (h.resolve_left (by simp [hdeed])).turn_of_calm hall hbegins rfl
  | closes =>
    obtain ⟨hold, rest, hwaits, -, -, hrest⟩ := waits_of_deed hs (.inr hdeed)
    rw [hdeed] at hrest
    obtain ⟨hsets, -⟩ | ⟨-, more, rfl, -⟩ := hrest
    · cases hsets
    · exact (h.resolve_left (by simp [hdeed])).turn_of_calm (turn_closes hs hdeed) hwaits rfl

theorem isCurrent_configure {g : Gateway σ} (h : g.IsCurrent) (options : Options)
    (hup : (Event.apply (.configure options) g).isConnected = true) :
    (Event.apply (.configure options) g).IsCurrent := by
  rw [Event.apply] at hup ⊢
  cases hok : g.configure options with
  | error fault => exact h
  | ok g' =>
    rw [hok] at hup
    show g'.IsCurrent
    -- Options that are accepted while the transport is down leave it down.
    have hwas : g.isConnected = true := by
      by_contra hdown
      change g'.isConnected = true at hup
      rw [configure_eq_ok hok, if_neg hdown] at hup
      exact hdown hup
    exact fun _ => (asks_configure hok hwas).2

theorem isCurrent_apply {g : Gateway σ} (hs : g.Sound) {e : Event σ} (he : e.subscribes = false)
    (h : e.opens g = true ∨ g.IsCurrent) (hup : (e.apply g).isConnected = true) :
    (e.apply g).IsCurrent := by
  cases e with
  | turn strand => exact isCurrent_turn hs strand (h.imp_left eq_of_beq)
  | configure options => exact isCurrent_configure (h.resolve_left nofun) options hup
  | registerSubscriber => cases he
  | unregisterSubscriber subscriber =>
    have hasks := unregisterSubscriber_eq subscriber g
    intro hfree
    refine (hasks.defaultFilter.trans ?_).trans (desiredFilter_congr hasks.options).symm
    refine h.resolve_left nofun ?_
    rintro ⟨strand, a, ha, hsets⟩
    exact hfree ⟨strand, a, activity_apply ha nofun, hsets⟩
  | _ =>
    refine (h.resolve_left nofun).of_same (steady_apply hs rfl).toCalm fun strand a _ ha => ?_
    exact activity_apply ha nofun

/-! ## 4. Histories -/

/-- What holds of a gateway to which nobody subscribed since it was made, and which was told of the
connection that it is on or was not. -/
structure Reconciled (g : Gateway σ) (told : Bool) : Prop where
  sound : g.Sound
  nobody : g.subscriptions = []
  holds : Holds g.calls g.defaultFilter
  current : told = true → g.IsCurrent

theorem Reconciled.apply {g : Gateway σ} {told : Bool} (h : g.Reconciled told) {e : Event σ}
    (he : e.subscribes = false) :
    (e.apply g).Reconciled ((e.apply g).isConnected && (told || e.opens g)) where
  sound := sound_apply h.sound e
  nobody := subscriptions_of_nobody h.sound h.nobody he
  holds := (brings_apply h.sound h.nobody he).holds h.holds
  current htold := by
    obtain ⟨hup, htold⟩ := (Bool.and_eq_true _ _).mp htold
    refine isCurrent_apply h.sound he ?_ hup
    rcases (Bool.or_eq_true _ _).mp htold with hwas | hopens
    · exact .inr (h.current hwas)
    · exact .inl hopens

theorem Reconciled.after {g : Gateway σ} {told : Bool} (h : g.Reconciled told)
    {events : List (Event σ)} (hnobody : ∀ e ∈ events, e.subscribes = false) :
    (g.after events).Reconciled (isTold events g told) := by
  induction events generalizing g told with
  | nil => exact h
  | cons e events ih =>
    exact ih (h.apply (hnobody e List.mem_cons_self)) fun e' he' =>
      hnobody e' (List.mem_cons_of_mem e he')

omit [Transport σ] in
theorem reconciled_of_create {options : Options} {transport : σ} {device : Device} {clock : Clock}
    {verifier : Option (Topic → Payload → Bool)} {g : Gateway σ}
    (hcreate : create options transport device clock verifier = .ok g) : g.Reconciled false := by
  have hnew := isNew_of_create hcreate
  have hcalls : g.calls = [] := by rw [calls, hnew.notes, List.filterMap_nil]
  have hdefault : g.defaultFilter = none := by
    unfold create at hcreate
    split at hcreate
    · cases hcreate
    · cases hcreate
      rfl
  refine ⟨hnew.sound, hnew.subscriptions, ?_, fun h => absurd h Bool.false_ne_true⟩
  rw [hcalls, hdefault]
  exact holds_nil

/-- **A gateway to which nobody subscribes has its transport subscribed to one filter at most. Unless
a connection is about to be set up, it is the filter that the options want. Other options, accepted
while the transport is up, make it give up this filter for the one that they want, unless it is the
same.** -/
theorem one_filter_at_a_time {options : Options} {transport : σ} {device : Device} {clock : Clock}
    {verifier : Option (Topic → Payload → Bool)} {g : Gateway σ}
    (hcreate : create options transport device clock verifier = .ok g) {events : List (Event σ)}
    (hnobody : ∀ e ∈ events, e.subscribes = false) :
    let g' := g.after events
    ∃ current, Holds g'.calls current ∧
      (isTold events g false = true → ¬g'.IsSettingUp → current = g'.desiredFilter) ∧
      ∀ options g'', g'.configure options = .ok g'' → g'.isConnected = true →
        g''.calls = g'.calls ++
            (if g''.desiredFilter = current then []
            else current.toList.map (·, false) ++ g''.desiredFilter.toList.map (·, true)) ∧
          Holds g''.calls g''.desiredFilter := by
  intro g'
  have hafter := (reconciled_of_create hcreate).after hnobody
  refine ⟨g'.defaultFilter, hafter.holds, hafter.current, fun options g'' hok hup => ?_⟩
  obtain ⟨hcalls, hdefault⟩ := asks_configure hok hup
  rw [hcalls]
  exact ⟨congrArg (_ ++ ·) (reconciling_false _ _), hafter.holds.reconciling false _⟩

/-- A connection is established, and its birth is acknowledged at once. -/
def connecting : List (Event Loopback) :=
  [.link { connected := true }, .ask none (.callback .established), .turn (.call none),
    .turn (.acknowledgement 0), .turn (.call none)]

/-- The default filter is subscribed to on a connection that is set up, and given up by options that
do without. -/
theorem one_filter_at_a_time_connecting :
    let g := loopback.after connecting
    (create {} {} {} .epoch none = .ok loopback ∧ ∀ e ∈ connecting, e.subscribes = false) ∧
      (isTold connecting loopback false = true ∧ ¬g.IsSettingUp) ∧
      Holds g.calls (some "$EDC/#account-name/#client-id/#") ∧
      ∀ g', g.configure { defaultSubscriptions := false } = .ok g' → Holds g'.calls none := by
  intro g
  have hnobody : ∀ e ∈ connecting, e.subscribes = false := by decide
  have htold : isTold connecting loopback false = true := by decide +kernel
  have hfree : ¬g.IsSettingUp := by
    rintro ⟨strand, a, ha, -⟩
    have hnone : g.activities = [] := List.isEmpty_iff.1 (by decide +kernel)
    rw [activity, hnone] at ha
    cases ha
  obtain ⟨current, hholds, hcurrent, hconfigure⟩ := one_filter_at_a_time create_loopback hnobody
  have hdesired : g.desiredFilter = some "$EDC/#account-name/#client-id/#" := by decide +kernel
  refine ⟨⟨create_loopback, hnobody⟩, ⟨htold, hfree⟩,
    (hcurrent htold hfree).trans hdesired ▸ hholds, fun g' hok => ?_⟩
  obtain ⟨-, hholds'⟩ := hconfigure _ g' hok (by decide +kernel)
  have hoptions : g'.options = { defaultSubscriptions := false } := by
    rw [configure_eq_ok hok]
    split
    · exact (asks_reconcile false _).options
    · rfl
  have hnone : g'.desiredFilter = none := by
    rw [desiredFilter, hoptions]
    rfl
  exact hnone ▸ hholds'

/-- A gateway on a transport that acknowledges nothing by itself. -/
def unacknowledged : Gateway Loopback :=
  { loopback with transport := { acknowledges := false } }

/-- The gateway is started in the background. Its birth waits. -/
def startingUnacknowledged : List (Event Loopback) :=
  [.ask (some "s") .start, .turn (.call (some "s"))]

/-- While the birth of a start is not acknowledged, options that want the same filter make the
gateway subscribe to it, although the start does so as well when it goes on. -/
theorem not_silent_while_setting_up :
    let g := unacknowledged.after startingUnacknowledged
    create {} unacknowledged.transport {} .epoch none = .ok unacknowledged ∧
      g.isConnected = true ∧
      ∃ g', g.configure {} = .ok g' ∧ g'.desiredFilter = g.desiredFilter ∧
        g'.calls = g.calls ++ [("$EDC/#account-name/#client-id/#", true)] := by
  intro g
  have hup : g.isConnected = true := by decide +kernel
  cases hok : g.configure {} with
  | error fault =>
    have hisOk : (g.configure {}).isOk = true := by decide +kernel
    rw [hok] at hisOk
    cases hisOk
  | ok g' =>
    obtain ⟨hcalls, -⟩ := asks_configure hok hup
    have hoptions : g'.options = g.options := by
      rw [configure_eq_ok hok, if_pos hup]
      exact ((asks_reconcile false _).options).trans (by decide +kernel)
    have hdesired : g'.desiredFilter = g.desiredFilter := desiredFilter_congr hoptions
    refine ⟨rfl, hup, g', rfl, hdesired, ?_⟩
    rw [hcalls, hdesired]
    exact congrArg (g.calls ++ ·) (by decide +kernel)

end Gateway

end Uplink
