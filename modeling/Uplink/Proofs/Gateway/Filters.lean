import Uplink.Proofs.Gateway.Events
import Uplink.Proofs.Subscription.Registry

/-!
# Filters that are wanted

A filter is wanted as long as a record has it, and the filter for the gateway itself as long as the
options say so. On a connection that was set up, whatever is wanted is subscribed to, unless a call
gives up a filter for which there is still another reason to want it: records are told apart by
their guarantees too, and the filter for the gateway itself is not among them, but what the
transport is told to give up is a filter.
-/

namespace Uplink

namespace Gateway

variable {σ : Type}

/-! ## 1. What is wanted, and what is subscribed to -/

/-- Messages are wanted for a filter. -/
def Wants (g : Gateway σ) (filter : String) : Prop :=
  filter ∈ g.subscriptions.records.map (·.filter) ∨ g.desiredFilter = some filter

instance (g : Gateway σ) (filter : String) : Decidable (g.Wants filter) := by
  unfold Wants
  infer_instance

/-- The last call about a filter asked for it. -/
def isLive (calls : List (String × Bool)) (filter : String) : Bool :=
  calls.foldl (fun live c => if c.1 = filter then c.2 else live) false

/-- Calls that all ask for filters, or all give them up, decide on these and on no others. -/
theorem isLive_append_map (calls : List (String × Bool)) (filters : List String) (wanted : Bool)
    (filter : String) : isLive (calls ++ filters.map (·, wanted)) filter =
      if filter ∈ filters then wanted else isLive calls filter := by
  rw [isLive, List.foldl_append, ← isLive]
  generalize isLive calls filter = live
  induction filters generalizing live with
  | nil => rfl
  | cons other filters ih =>
    rw [List.map_cons, List.foldl_cons, ih]
    by_cases h : filter = other
    · simp [h]
    · simp [h, Ne.symm h]

theorem isLive_setUp (calls : List (String × Bool)) {g : Gateway σ} {filter : String}
    (h : g.Wants filter) : isLive (calls ++ (reconciling true g.defaultFilter g.desiredFilter ++
      g.subscriptions.records.map fun r => (r.filter, true))) filter = true := by
  have hrecords : (g.subscriptions.records.map fun r => (r.filter, true)) =
      (g.subscriptions.records.map (·.filter)).map (·, true) := by simp
  rw [hrecords, reconciling, ← List.append_assoc, ← List.append_assoc, isLive_append_map,
    isLive_append_map]
  rcases h with h | h
  · rw [if_pos h]
  · simp [h]

/-- On a connection that is not new, the filter for the gateway itself is live as before or from now
on, and its predecessor is not. -/
theorem isLive_reconciling (calls : List (String × Bool)) (previous desired : Option String)
    (filter : String) : isLive (calls ++ reconciling false previous desired) filter =
      if desired = previous then isLive calls filter
      else if desired = some filter then true
      else if previous = some filter then false else isLive calls filter := by
  rw [reconciling, ← List.append_assoc, isLive_append_map, isLive_append_map]
  cases previous <;> cases desired <;> grind

/-! ## 2. Watching a gateway -/

structure Watched (σ : Type) where
  gateway : Gateway σ
  /-- How many calls about filters there were before the connection that the gateway is on was
  established. -/
  since : Option Nat := none

variable [Transport σ]

/-- The turn of a strand ends the connection that the gateway is on: the transport is closed, or the
gateway is told that the connection is over. -/
def ends (g : Gateway σ) (strand : Strand) : Bool :=
  match g.activity strand with
  | some (.begins (.callback .disconnected)) | some (.begins (.callback .lost)) => true
  | _ => g.deed strand == .closes

namespace Watched

/-- The connection that the gateway is told to be on by an event. -/
def told (w : Watched σ) : Event σ → Option Nat
  | .turn strand =>
    if w.gateway.deed strand = .opens then some w.gateway.calls.length
    else if w.gateway.ends strand then none
    else w.since
  | _ => w.since

/-- Whatever happens is watched. A gateway whose transport is down is on no connection, whatever it
was told. -/
def apply (e : Event σ) (w : Watched σ) : Watched σ where
  gateway := e.apply w.gateway
  since := if (e.apply w.gateway).isConnected then w.told e else none

def after (w : Watched σ) (events : List (Event σ)) : Watched σ :=
  events.foldl (fun w e => w.apply e) w

theorem after_append (w : Watched σ) (events more : List (Event σ)) :
    w.after (events ++ more) = (w.after events).after more :=
  List.foldl_append ..

theorem gateway_after (w : Watched σ) (events : List (Event σ)) :
    (w.after events).gateway = w.gateway.after events := by
  induction events generalizing w with
  | nil => rfl
  | cons e events ih => exact ih (w.apply e)

omit [Transport σ] in
/-- The calls about filters on the connection that the gateway is on. -/
def calls (w : Watched σ) : List (String × Bool) := w.gateway.calls.drop (w.since.getD 0)

/-- The gateway is on a connection that was established, and nobody is about to set one up or to
close it. -/
structure IsSettled (w : Watched σ) : Prop where
  since : w.since.isSome
  isFree : ∀ strand, w.gateway.IsFree strand

/-- Whatever is wanted is live. -/
def Serves (w : Watched σ) : Prop := ∀ filter, w.gateway.Wants filter → isLive w.calls filter

end Watched

/-- The filters that an event has the transport give up on a connection. -/
def Event.givesUp (g : Gateway σ) : Event σ → List String
  | .unregisterSubscriber subscriber =>
    (g.subscriptions.remove subscriber).1.map (·.filter)
  | .configure options =>
    if (g.configure options).isOk && { g with options }.desiredFilter ≠ g.desiredFilter then
      g.desiredFilter.toList
    else []
  | _ => []

/-- A filter is given up that is still wanted afterwards. -/
def Event.Clashes (g : Gateway σ) (e : Event σ) : Prop :=
  ∃ filter ∈ e.givesUp g, (e.apply g).Wants filter

/-! ## 3. One event -/

omit [Transport σ] in
theorem desiredFilter_congr {g g' : Gateway σ} (h : g'.options = g.options) :
    g'.desiredFilter = g.desiredFilter := by
  rw [desiredFilter, h, desiredFilter]

omit [Transport σ] in
theorem wants_congr {g g' : Gateway σ} (hoptions : g'.options = g.options)
    (hsubscriptions : g'.subscriptions = g.subscriptions) (filter : String) :
    g'.Wants filter ↔ g.Wants filter := by
  rw [Wants, hsubscriptions, desiredFilter_congr hoptions, Wants]

namespace Watched

/-- What holds of a gateway that is watched from its beginning. -/
structure InOrder (w : Watched σ) : Prop where
  sound : w.gateway.Sound
  within : w.since.getD 0 ≤ w.gateway.calls.length
  connected : w.since.isSome → w.gateway.isConnected = true
  default : w.IsSettled → w.gateway.defaultFilter = w.gateway.desiredFilter

/-- What an event comes to if the gateway is settled after it. -/
structure Settling (w : Watched σ) (e : Event σ) : Prop where
  default : (w.apply e).gateway.defaultFilter = (w.apply e).gateway.desiredFilter
  serves : (w.IsSettled → w.Serves) →
    ((w.apply e).Serves ↔ (w.IsSettled → ¬e.Clashes w.gateway))

omit [Transport σ] in
theorem calls_append {w w' : Watched σ} (hwithin : w.since.getD 0 ≤ w.gateway.calls.length)
    (hsince : w'.since = w.since) {list : List (String × Bool)}
    (hcalls : w'.gateway.calls = w.gateway.calls ++ list) : w'.calls = w.calls ++ list := by
  rw [calls, hsince, hcalls, List.drop_append_of_le_length hwithin, calls]

theorem not_clashes_of_givesUp {g : Gateway σ} {e : Event σ} (h : e.givesUp g = []) :
    ¬e.Clashes g := by
  rintro ⟨filter, hmem, -⟩
  rw [h] at hmem
  cases hmem

/-- What has to do neither with the connection nor with what is wanted changes nothing. -/
theorem settling_of_calm {w : Watched σ} (hord : w.InOrder) {e : Event σ} {hands : Bool}
    (hcalm : Calm hands w.gateway (e.apply w.gateway)) (hsettled : w.IsSettled)
    (hsince : (w.apply e).since = w.since) (hgives : e.givesUp w.gateway = []) :
    w.Settling e := by
  constructor
  · show (e.apply w.gateway).defaultFilter = (e.apply w.gateway).desiredFilter
    rw [hcalm.defaultFilter, hord.default hsettled, desiredFilter_congr hcalm.options]
  · intro hserves
    refine iff_of_true (fun filter hwants => ?_) fun _ => not_clashes_of_givesUp hgives
    have hcalls : (w.apply e).calls = w.calls := by
      rw [calls, hsince, show (w.apply e).gateway.calls = w.gateway.calls from hcalm.calls, calls]
    rw [hcalls]
    exact hserves hsettled filter
      ((wants_congr hcalm.options hcalm.subscriptions filter).1 hwants)

/-- What sets a connection up makes live what is wanted. -/
theorem settling_of_setUp {w : Watched σ} {e : Event σ} {g₁ : Gateway σ} {hands : Bool}
    (hcalm : Calm hands (g₁.reconcile true).resubscribe (e.apply w.gateway))
    (earlier : List (String × Bool))
    (hcalls : (w.apply e).calls = earlier ++ (reconciling true g₁.defaultFilter g₁.desiredFilter ++
      g₁.subscriptions.records.map fun r => (r.filter, true)))
    (hgives : e.givesUp w.gateway = []) : w.Settling e := by
  have hasks := asks_setUp g₁
  have hoptions : (e.apply w.gateway).options = g₁.options := hcalm.options.trans hasks.options
  constructor
  · show (e.apply w.gateway).defaultFilter = (e.apply w.gateway).desiredFilter
    rw [hcalm.defaultFilter, hasks.defaultFilter, desiredFilter_congr hoptions]
  · refine fun _ => iff_of_true (fun filter hwants => ?_) fun _ => not_clashes_of_givesUp hgives
    rw [hcalls]
    refine isLive_setUp earlier ((wants_congr hoptions ?_ filter).1 hwants)
    exact hcalm.subscriptions.trans hasks.subscriptions

theorem since_apply {w : Watched σ} {e : Event σ} (h : (w.apply e).since.isSome) :
    (e.apply w.gateway).isConnected = true ∧ (w.apply e).since = w.told e := by
  rw [apply] at h ⊢
  dsimp only at h ⊢
  split at h
  · next hup => exact ⟨hup, if_pos hup⟩
  · cases h

/-- A gateway that is on a connection after a turn was on it before, or was told of it in the
turn. -/
theorem since_turn {w : Watched σ} {strand : Strand}
    (h : (w.apply (.turn strand)).since.isSome) :
    w.gateway.deed strand = .opens ∧
        (w.apply (.turn strand)).since = some w.gateway.calls.length ∨
      w.gateway.deed strand ≠ .opens ∧ w.gateway.deed strand ≠ .closes ∧
        (w.apply (.turn strand)).since = w.since := by
  obtain ⟨-, hsince⟩ := since_apply h
  rw [hsince] at h ⊢
  rw [told] at h ⊢
  split at h
  · next hopens => exact .inl ⟨hopens, by rw [if_pos hopens]⟩
  · next hopens =>
    split at h
    · cases h
    · next hends =>
      refine .inr ⟨hopens, fun hcloses => hends ?_, by rw [if_neg hopens, if_neg hends]⟩
      unfold ends
      split
      · rfl
      · rfl
      · rw [hcloses]
        rfl

theorem settled_of_keeps {w : Watched σ} {e : Event σ} (hsince : (w.apply e).since = w.since)
    (hkeeps : ∀ strand a, a.isUnderWay → w.gateway.activity strand = some a →
      (e.apply w.gateway).activity strand = some a) (hsettled' : (w.apply e).IsSettled) :
    w.IsSettled := by
  refine ⟨hsince ▸ hsettled'.since, fun strand a ha => ?_⟩
  cases hunder : a.isUnderWay with
  | false => rfl
  | true => exact hunder.symm.trans (hsettled'.isFree strand a (hkeeps strand a hunder ha))

theorem settling_turn {w : Watched σ} (hord : w.InOrder) (strand : Strand)
    (hsettled' : (w.apply (.turn strand)).IsSettled) : w.Settling (.turn strand) := by
  rcases since_turn hsettled'.since with ⟨hdeed, hsince⟩ | ⟨hopens, hcloses, hsince⟩
  · obtain ⟨g₁, hcalm, -, hsetUp⟩ := turn_opens hord.sound hdeed
    -- A connection that is being set up is not settled, unless this turn completes it.
    cases hsetUp with
    | waits _ _ a ha hsets =>
      have hfree := hsettled'.isFree strand a ha
      rw [Activity.isUnderWay_of_isSettingUp hsets] at hfree
      cases hfree
    | done hcalm' =>
      refine settling_of_setUp hcalm' [] ?_ rfl
      have hcalls : (w.gateway.turn strand).calls = w.gateway.calls ++ _ :=
        hcalm'.calls.trans ((asks_setUp g₁).calls.trans (congrArg (· ++ _) hcalm.calls))
      rw [calls, hsince]
      show (w.gateway.turn strand).calls.drop w.gateway.calls.length = _
      rw [hcalls, List.drop_left, List.nil_append]
  · cases hdeed : w.gateway.deed strand with
    | opens => exact absurd hdeed hopens
    | closes => exact absurd hdeed hcloses
    | nothing =>
      have hsteady := steady_turn hord.sound hdeed
      exact settling_of_calm hord hsteady.toCalm
        (settled_of_keeps hsince (fun other a hunder => (hsteady.underWay other a hunder).2) hsettled')
        hsince rfl
    | leaves =>
      obtain ⟨g₀, hcalm₀, hcalm₁⟩ := turn_leaves hord.sound hdeed
      obtain ⟨call, hbegins, -⟩ := begins_of_deed (.inr hdeed)
      have hcalm := hcalm₀.weaken.trans ((steady_deliver _ false g₀).toCalm.trans hcalm₁.loosen)
      refine settling_of_calm hord hcalm
        (settled_of_keeps hsince (fun other a hunder ha => ?_) hsettled') hsince rfl
      refine (spares_turn strand w.gateway).activity_of_some ?_ ha
      -- The strand that leaves has only begun its call.
      rintro rfl
      rw [hbegins] at ha
      cases ha
      cases hunder
    | setsUp =>
      obtain ⟨g₁, hcalm, hcalm'⟩ := turn_setsUp hord.sound hdeed
      refine settling_of_setUp hcalm' w.calls ?_ rfl
      exact calls_append hord.within hsince
        (hcalm'.calls.trans ((asks_setUp g₁).calls.trans (congrArg (· ++ _) hcalm.calls)))

theorem settled_of_not_turn {w : Watched σ} {e : Event σ} (hturn : ∀ strand, e ≠ .turn strand)
    (hsettled' : (w.apply e).IsSettled) : (w.apply e).since = w.since ∧ w.IsSettled := by
  have htold : w.told e = w.since := by
    cases e with
    | turn strand => exact absurd rfl (hturn strand)
    | _ => rfl
  have hsince := (since_apply hsettled'.since).2.trans htold
  exact ⟨hsince, settled_of_keeps hsince
    (fun strand a _ ha => activity_apply ha (hturn strand)) hsettled'⟩

theorem settling_plain {w : Watched σ} (hord : w.InOrder) {e : Event σ}
    (hturn : ∀ strand, e ≠ .turn strand) (hgives : e.givesUp w.gateway = [])
    (hplain : e.isPlain w.gateway) (hsettled' : (w.apply e).IsSettled) : w.Settling e := by
  obtain ⟨hsince, hsettled⟩ := settled_of_not_turn hturn hsettled'
  exact settling_of_calm hord (steady_apply hord.sound hplain).toCalm hsettled hsince hgives

theorem settling_of_refused {w : Watched σ} (hord : w.InOrder) {options : Options}
    {fault : CloudError} (hno : w.gateway.configure options = .error fault) (hsettled : w.IsSettled)
    (hsince : (w.apply (.configure options)).since = w.since) :
    w.Settling (.configure options) := by
  have hsame : Event.apply (.configure options) w.gateway = w.gateway := by
    rw [Event.apply, hno]
    rfl
  have hcalm : Calm false w.gateway (Event.apply (.configure options) w.gateway) := by
    rw [hsame]
    exact (Steady.refl false _).toCalm
  refine settling_of_calm hord hcalm hsettled hsince ?_
  rw [Event.givesUp, hno]
  rfl

theorem mem_givesUp_configure {g g' : Gateway σ} {options : Options}
    (hok : g.configure options = .ok g')
    (hdesired : g'.desiredFilter = { g with options }.desiredFilter) (filter : String) :
    filter ∈ Event.givesUp g (.configure options) ↔
      g'.desiredFilter ≠ g.desiredFilter ∧ g.desiredFilter = some filter := by
  rw [Event.givesUp, hok, hdesired]
  split <;> simp_all [Except.isOk, Except.toBool]

/-- Options that are accepted bring the filter for the gateway itself in line. -/
theorem settling_of_accepted {w : Watched σ} (hord : w.InOrder) {options : Options}
    {g' : Gateway σ} (hok : w.gateway.configure options = .ok g') (hsettled : w.IsSettled)
    (hsince : (w.apply (.configure options)).since = w.since) :
    w.Settling (.configure options) := by
  have happly : Event.apply (.configure options) w.gateway = g' := by
    rw [Event.apply, hok]
    rfl
  have hg' := configure_eq_ok hok
  rw [if_pos (hord.connected hsettled.since)] at hg'
  have hasks := asks_reconcile false (schedule .birth { w.gateway with options })
  rw [← hg'] at hasks
  have hdesired : g'.desiredFilter = { w.gateway with options }.desiredFilter :=
    desiredFilter_congr hasks.options
  have hgives := mem_givesUp_configure hok hdesired
  constructor
  · show (Event.apply (.configure options) w.gateway).defaultFilter =
      (Event.apply (.configure options) w.gateway).desiredFilter
    rw [happly]
    exact hasks.defaultFilter.trans hdesired.symm
  · intro hserves
    have hcalls : (w.apply (.configure options)).calls = w.calls ++
        reconciling false w.gateway.desiredFilter g'.desiredFilter := by
      refine calls_append hord.within hsince ?_
      show (Event.apply (.configure options) w.gateway).calls = _
      rw [happly, hdesired, ← hord.default hsettled]
      exact hasks.calls
    constructor
    · rintro hserves' - ⟨filter, hmem, hwants⟩
      obtain ⟨hne, hprevious⟩ := (hgives filter).1 hmem
      have hlive := hserves' filter hwants
      rw [hcalls, isLive_reconciling, if_neg hne, if_neg (hprevious ▸ hne), if_pos hprevious]
        at hlive
      cases hlive
    · intro hno filter hwants
      change Wants (Event.apply (.configure options) w.gateway) filter at hwants
      rw [happly] at hwants
      have hwants' := hwants
      rw [Wants, hasks.subscriptions] at hwants'
      rw [hcalls, isLive_reconciling]
      split
      · next heq =>
        refine hserves hsettled filter ?_
        rw [Wants, ← heq]
        exact hwants'
      · next hne =>
        split
        · rfl
        · next hdesires =>
          -- A record has the filter, which is not the one that is given up.
          rw [if_neg fun hprevious =>
            hno hsettled ⟨filter, (hgives filter).2 ⟨hne, hprevious⟩, happly ▸ hwants⟩]
          exact hserves hsettled filter (.inl (hwants'.resolve_right hdesires))

theorem settling_configure {w : Watched σ} (hord : w.InOrder) (options : Options)
    (hsettled' : (w.apply (.configure options)).IsSettled) : w.Settling (.configure options) := by
  obtain ⟨hsince, hsettled⟩ := settled_of_not_turn (e := .configure options) nofun hsettled'
  cases hok : w.gateway.configure options with
  | error fault => exact settling_of_refused hord hok hsettled hsince
  | ok g' => exact settling_of_accepted hord hok hsettled hsince

theorem settling_registerSubscriber {w : Watched σ} (hord : w.InOrder) (r : SubscriptionRecord)
    (subscriber : String) (hsettled' : (w.apply (.registerSubscriber r subscriber)).IsSettled) :
    w.Settling (.registerSubscriber r subscriber) := by
  obtain ⟨hsince, hsettled⟩ :=
    settled_of_not_turn (e := .registerSubscriber r subscriber) nofun hsettled'
  obtain ⟨list, hlist, hasks⟩ := registerSubscriber_eq r subscriber w.gateway
  have hdesired : (w.gateway.registerSubscriber r subscriber).desiredFilter =
      w.gateway.desiredFilter := desiredFilter_congr hasks.options
  constructor
  · exact hasks.defaultFilter.trans ((hord.default hsettled).trans hdesired.symm)
  · refine fun hserves => iff_of_true (fun filter hwants => ?_) fun _ => not_clashes_of_givesUp rfl
    rw [calls_append hord.within hsince hasks.calls, hlist, hord.connected hsettled.since]
    have hrecords : (w.gateway.registerSubscriber r subscriber).subscriptions.records = _ :=
      (congrArg Subscriptions.records hasks.subscriptions).trans (Subscriptions.records_add ..)
    change Wants (w.gateway.registerSubscriber r subscriber) filter at hwants
    rw [Wants, hdesired, hrecords] at hwants
    -- A record that is there already asks for nothing.
    cases hnew : (w.gateway.subscriptions.add r subscriber).1 with
    | false =>
      rw [hnew] at hwants
      exact (congrArg (isLive · filter) (List.append_nil _)).trans (hserves hsettled filter hwants)
    | true =>
      rw [hnew, if_pos rfl, List.map_append, List.mem_append] at hwants
      show isLive (w.calls ++ [r.filter].map (·, true)) filter = true
      rw [isLive_append_map]
      split
      · rfl
      · next hother =>
        exact hserves hsettled filter (hwants.imp_left fun h => h.resolve_right hother)

theorem settling_unregisterSubscriber {w : Watched σ} (hord : w.InOrder) (subscriber : String)
    (hsettled' : (w.apply (.unregisterSubscriber subscriber)).IsSettled) :
    w.Settling (.unregisterSubscriber subscriber) := by
  obtain ⟨hsince, hsettled⟩ :=
    settled_of_not_turn (e := .unregisterSubscriber subscriber) nofun hsettled'
  have hasks := unregisterSubscriber_eq subscriber w.gateway
  rw [if_pos (hord.connected hsettled.since)] at hasks
  have hdesired : (w.gateway.unregisterSubscriber subscriber).desiredFilter =
      w.gateway.desiredFilter := desiredFilter_congr hasks.options
  constructor
  · exact hasks.defaultFilter.trans ((hord.default hsettled).trans hdesired.symm)
  · intro hserves
    have hrecords : (w.gateway.subscriptions.remove subscriber).1.map (fun r => (r.filter, false)) =
        ((w.gateway.subscriptions.remove subscriber).1.map (·.filter)).map (·, false) := by simp
    have hcalls := calls_append hord.within hsince hasks.calls
    rw [hrecords] at hcalls
    constructor
    · -- A filter that was given up is not served, though it may still be wanted.
      rintro hserves' - ⟨filter, hmem, hwants⟩
      change filter ∈ (w.gateway.subscriptions.remove subscriber).1.map (·.filter) at hmem
      have hlive := hserves' filter hwants
      rw [hcalls, isLive_append_map, if_pos hmem] at hlive
      cases hlive
    · intro hno filter hwants
      have hkept : filter ∉ (w.gateway.subscriptions.remove subscriber).1.map (·.filter) :=
        fun hmem => hno hsettled ⟨filter, hmem, hwants⟩
      rw [hcalls, isLive_append_map, if_neg hkept]
      refine hserves hsettled filter ?_
      change Wants (w.gateway.unregisterSubscriber subscriber) filter at hwants
      rw [Wants, hdesired, hasks.subscriptions] at hwants
      refine hwants.imp_left fun hmem => ?_
      obtain ⟨r, hr, rfl⟩ := List.mem_map.1 hmem
      exact List.mem_map_of_mem (Subscriptions.mem_records_of_remove hr)

theorem settling_apply {w : Watched σ} (hord : w.InOrder) (e : Event σ)
    (hsettled' : (w.apply e).IsSettled) : w.Settling e := by
  cases e with
  | turn strand => exact settling_turn hord strand hsettled'
  | configure options => exact settling_configure hord options hsettled'
  | registerSubscriber r subscriber =>
    exact settling_registerSubscriber hord r subscriber hsettled'
  | unregisterSubscriber subscriber =>
    exact settling_unregisterSubscriber hord subscriber hsettled'
  | _ => exact settling_plain hord nofun rfl rfl hsettled'

theorem InOrder.apply {w : Watched σ} (hord : w.InOrder) (e : Event σ) : (w.apply e).InOrder where
  sound := sound_apply hord.sound e
  within := by
    have hle : w.gateway.calls.length ≤ (e.apply w.gateway).calls.length :=
      ((notes_apply e _).filterMap Note.call?).length_le
    show Option.getD (if _ then w.told e else none) 0 ≤ _
    split
    · cases e with
      | turn strand =>
        rw [told]
        split
        · exact hle
        · split
          · exact Nat.zero_le _
          · exact Nat.le_trans hord.within hle
      | _ => exact Nat.le_trans hord.within hle
    · exact Nat.zero_le _
  connected h := (since_apply h).1
  default h := (settling_apply hord e h).default

/-! ## 4. Histories -/

theorem inOrder_after {g : Gateway σ} (hs : g.Sound) (events : List (Event σ)) :
    (after ⟨g, none⟩ events).InOrder := by
  have hstart : InOrder ⟨g, none⟩ := ⟨hs, Nat.zero_le _, nofun, fun h => nomatch h.since⟩
  generalize (⟨g, none⟩ : Watched σ) = w at hstart ⊢
  induction events generalizing w with
  | nil => exact hstart
  | cons e events ih => exact ih (w.apply e) (hstart.apply e)

theorem after_take_succ (w : Watched σ) {events : List (Event σ)} {n : Nat}
    (h : n < events.length) :
    w.after (events.take (n + 1)) = (w.after (events.take n)).apply events[n] := by
  rw [List.take_succ_eq_append_getElem h, after_append]
  rfl

/-- **At every moment at which a gateway is settled, whatever is wanted is live, exactly as long as
no filter is given up at such a moment that is still wanted.** -/
theorem serves_iff_not_clashes {options : Options} {transport : σ} {device : Device} {clock : Clock}
    {verifier : Option (Topic → Payload → Bool)} {g : Gateway σ}
    (hcreate : create options transport device clock verifier = .ok g) (events : List (Event σ)) :
    let moment n := after ⟨g, none⟩ (events.take n)
    (∀ n, (moment n).IsSettled → (moment n).Serves) ↔
      ∀ n (h : n < events.length), (moment n).IsSettled → (moment (n + 1)).IsSettled →
        ¬events[n].Clashes (moment n).gateway := by
  intro moment
  have hord (n : Nat) : (moment n).InOrder := inOrder_after (isNew_of_create hcreate).sound _
  constructor
  · intro hserves n hn hsettled hsettled'
    have hserves' := hserves (n + 1) hsettled'
    rw [show moment (n + 1) = _ from after_take_succ _ hn] at hsettled' hserves'
    exact ((settling_apply (hord n) _ hsettled').serves (hserves n)).1 hserves' hsettled
  · intro hno n
    induction n with
    | zero => exact fun h => nomatch h.since
    | succ n ih =>
      intro hsettled'
      by_cases hn : n < events.length
      · have hclash := fun h => hno n hn h hsettled'
        rw [show moment (n + 1) = _ from after_take_succ _ hn] at hsettled' ⊢
        exact ((settling_apply (hord n) _ hsettled').serves ih).2 hclash
      · have hsame : moment (n + 1) = moment n := by
          show after _ (events.take (n + 1)) = after _ (events.take n)
          rw [List.take_of_length_le (by omega), List.take_of_length_le (by omega)]
        rw [hsame] at hsettled' ⊢
        exact ih hsettled'

omit [Transport σ] in
theorem isSettled_of_all {w : Watched σ} (hsince : w.since.isSome = true)
    (h : (w.gateway.activities.all fun e => !e.2.isUnderWay) = true) : w.IsSettled := by
  refine ⟨hsince, fun strand a ha => ?_⟩
  obtain ⟨before, behind, hactivities, -⟩ := List.lookup_eq_some_iff.1 ha
  have hfree := List.all_eq_true.1 h (strand, a) (by simp [hactivities])
  simpa using hfree

/-- Two subscribers want a filter, the second with some guarantee, a connection is set up, and the
second subscriber leaves. -/
def sharing (qos : Qos) : List (Event Loopback) :=
  [.registerSubscriber ⟨"a/b", .atMostOnce⟩ "x", .registerSubscriber ⟨"a/b", qos⟩ "y",
    .link { connected := true }, .ask none (.callback .established), .turn (.call none),
    .turn (.acknowledgement 0), .turn (.call none), .unregisterSubscriber "y"]

/-- Who shares a record with somebody that leaves is served on. -/
theorem serves_when_record_is_shared :
    create {} {} {} .epoch none = .ok loopback ∧
      ∀ n, (after ⟨loopback, none⟩ ((sharing .atMostOnce).take n)).IsSettled →
        (after ⟨loopback, none⟩ ((sharing .atMostOnce).take n)).Serves := by
  have hno : ∀ n (h : n < (sharing .atMostOnce).length), ¬Event.Clashes
      (after ⟨loopback, none⟩ ((sharing .atMostOnce).take n)).gateway
      (sharing .atMostOnce)[n] := by
    unfold Event.Clashes
    decide +kernel
  exact ⟨create_loopback, (serves_iff_not_clashes create_loopback _).2 fun n h _ _ => hno n h⟩

/-- Who has a record of its own for the filter of somebody that leaves is served no more. -/
theorem not_serves_when_filter_is_shared :
    create {} {} {} .epoch none = .ok loopback ∧
      (after ⟨loopback, none⟩ (sharing .atLeastOnce)).IsSettled ∧
      ¬(after ⟨loopback, none⟩ (sharing .atLeastOnce)).Serves := by
  refine ⟨create_loopback, isSettled_of_all (by decide +kernel) (by decide +kernel), fun h => ?_⟩
  have hlive := h "a/b" (by decide +kernel)
  revert hlive
  decide +kernel

end Watched

end Gateway

end Uplink
