import Uplink.Proofs.Gateway.Events
import Uplink.Proofs.Subscription.Registry

/-!
# What is told to the transport about subscribers

Subscribers come and go. On a connection that is up, the transport hears of it when a record gets
its first subscriber and when it loses its last, and of nothing else: for each record the calls take
turns.
-/

namespace Uplink.Gateway

open Subscriptions (Change IsTidy Tells ofChanges)

variable {σ : Type}

/-! ## 1. Subscribers in a history -/

def Event.isRegistration : Event σ → Bool
  | .registerSubscriber .. | .unregisterSubscriber _ => true
  | _ => false

def Event.changes : Event σ → List (Change String)
  | .registerSubscriber r subscriber => [.add r subscriber]
  | .unregisterSubscriber subscriber => [.remove subscriber]
  | _ => []

theorem changes_eq_nil {e : Event σ} (h : e.isRegistration = false) : e.changes = [] := by
  cases e <;> first | rfl | cases h

variable [Transport σ]

/-- The registry changes only when a subscriber comes or goes. -/
theorem subscriptions_apply {g : Gateway σ} (hs : g.Sound) (e : Event σ) :
    (e.apply g).subscriptions =
      e.changes.foldl (fun subs change => change.apply subs) g.subscriptions := by
  by_cases hplain : e.isPlain g = true
  · rw [(steady_apply hs hplain).subscriptions]
    cases e <;> first | rfl | cases hplain
  cases e with
  | turn strand => exact (spares_turn strand g).subscriptions
  | configure options =>
    rw [Event.apply]
    cases h : g.configure options with
    | error e => rfl
    | ok g' =>
      show g'.subscriptions = g.subscriptions
      rw [configure_eq_ok h]
      split
      · exact (asks_reconcile false _).subscriptions
      · rfl
  | registerSubscriber r subscriber =>
    obtain ⟨list, -, hasks⟩ := registerSubscriber_eq r subscriber g
    exact hasks.subscriptions
  | unregisterSubscriber subscriber => exact (unregisterSubscriber_eq subscriber g).subscriptions
  | _ => exact absurd rfl hplain

/-- The registry of a gateway is that of the changes in its history. -/
theorem subscriptions_after {g : Gateway σ} (hnew : g.IsNew) (events : List (Event σ)) :
    (g.after events).subscriptions = ofChanges (events.flatMap Event.changes) := by
  induction events using List.reverseRecOn with
  | nil => exact hnew.subscriptions
  | append_singleton events e ih =>
    rw [after_append, after_cons, after_nil, subscriptions_apply (sound_after hnew.sound events),
      ih, List.flatMap_append, ofChanges, ofChanges, List.foldl_append, List.flatMap_singleton]

theorem isTidy_after {g : Gateway σ} (hnew : g.IsNew) (events : List (Event σ)) :
    IsTidy (g.after events).subscriptions := by
  rw [subscriptions_after hnew]
  exact (Subscriptions.reflects_ofChanges _).isTidy

theorem apply_after (g : Gateway σ) (events : List (Event σ)) (e : Event σ) :
    e.apply (g.after events) = g.after (events ++ [e]) := by
  rw [after_append, after_cons, after_nil]

/-! ## 2. Records that come and go -/

/-- The records that are there no longer, and those that are there now. -/
def turnover (before after : List SubscriptionRecord) : List (SubscriptionRecord × Bool) :=
  (before.filter (· ∉ after)).map (·, false) ++ (after.filter (· ∉ before)).map (·, true)

/-- The records that come and go in a history. -/
def turnovers (g : Gateway σ) : List (Event σ) → List (SubscriptionRecord × Bool)
  | [] => []
  | e :: events =>
    turnover g.subscriptions.records (e.apply g).subscriptions.records ++
      turnovers (e.apply g) events

def flips (r : SubscriptionRecord) (list : List (SubscriptionRecord × Bool)) : List Bool :=
  (list.filter fun t => t.1 = r).map (·.2)

theorem filter_notMem_of_subset {records others : List SubscriptionRecord} (h : records ⊆ others) :
    records.filter (· ∉ others) = [] :=
  List.filter_eq_nil_iff.2 fun r hr => by simp [h hr]

theorem turnover_self (records : List SubscriptionRecord) : turnover records records = [] := by
  rw [turnover, filter_notMem_of_subset (List.Subset.refl _)]
  rfl

theorem turnover_concat {records : List SubscriptionRecord} {r : SubscriptionRecord}
    (h : r ∉ records) : turnover records (records ++ [r]) = [(r, true)] := by
  rw [turnover, filter_notMem_of_subset (List.subset_append_left _ _), List.filter_append,
    filter_notMem_of_subset (List.Subset.refl _)]
  simp [h]

theorem turnover_of_subset {before after : List SubscriptionRecord} (h : after ⊆ before) :
    turnover before after = (before.filter (· ∉ after)).map (·, false) := by
  rw [turnover, filter_notMem_of_subset h, List.map_nil, List.append_nil]

theorem flips_append (r : SubscriptionRecord) (list more : List (SubscriptionRecord × Bool)) :
    flips r (list ++ more) = flips r list ++ flips r more := by
  rw [flips, List.filter_append, List.map_append, flips, flips]

/-- Among records that are there once, one stands once or not at all. -/
theorem flips_map {records : List SubscriptionRecord} (h : records.Nodup) (r : SubscriptionRecord)
    (come : Bool) : flips r (records.map (·, come)) = if r ∈ records then [come] else [] := by
  induction records with
  | nil => rfl
  | cons other records ih =>
    obtain ⟨hnot, hnodup⟩ := List.nodup_cons.1 h
    have hrest := ih hnodup
    rw [flips] at hrest ⊢
    rw [List.map_cons, List.filter_cons]
    by_cases hr : other = r
    · subst hr
      simp [hrest, hnot]
    · simp [hrest, hr, Ne.symm hr]

theorem flips_turnover {before after : List SubscriptionRecord} (hbefore : before.Nodup)
    (hafter : after.Nodup) (r : SubscriptionRecord) :
    flips r (turnover before after) =
      if decide (r ∈ before) = decide (r ∈ after) then [] else [decide (r ∈ after)] := by
  rw [turnover, flips_append, flips_map (hbefore.filter _), flips_map (hafter.filter _)]
  by_cases hb : r ∈ before <;> by_cases ha : r ∈ after <;> simp [hb, ha]

/-- A record comes and goes by turns. -/
theorem alternates {g : Gateway σ} (hnew : g.IsNew) (past events : List (Event σ))
    (r : SubscriptionRecord) :
    (decide (r ∈ (g.after past).subscriptions.records) ::
      flips r (turnovers (g.after past) events)).IsChain (· ≠ ·) := by
  -- On the future, with the past general: whether the record is there now heads the chain.
  induction events generalizing past with
  | nil => exact .singleton _
  | cons e events ih =>
    have hchain := ih (past ++ [e])
    rw [turnovers, apply_after, flips_append,
      flips_turnover (isTidy_after hnew past).records (isTidy_after hnew _).records]
    split
    · next hsame => rwa [hsame, List.nil_append]
    · next hflip => exact List.isChain_cons_cons.2 ⟨hflip, hchain⟩

/-! ## 3. Calls that are made for subscribers -/

/-- What the transport is asked for: a filter, and the guarantee if it is subscribed to. -/
def Note.request? : Note → Option (String × Option Qos)
  | .subscribed filter qos _ => some (filter, some qos)
  | .unsubscribed filter _ => some (filter, none)
  | _ => none

def requestFor (t : SubscriptionRecord × Bool) : String × Option Qos :=
  (t.1.filter, if t.2 then some t.1.qos else none)

/-- What an event asks of the transport. -/
def Event.requests (e : Event σ) (g : Gateway σ) : List (String × Option Qos) :=
  ((e.apply g).notes.drop g.notes.length).filterMap Note.request?

/-- What is asked of the transport in a history because subscribers come and go. -/
def registrationRequests (g : Gateway σ) : List (Event σ) → List (String × Option Qos)
  | [] => []
  | e :: events =>
    (if e.isRegistration then e.requests g else []) ++ registrationRequests (e.apply g) events

theorem requests_of_notes {e : Event σ} {g : Gateway σ} {new : List Note}
    (h : (e.apply g).notes = g.notes ++ new) : e.requests g = new.filterMap Note.request? := by
  rw [Event.requests, h, List.drop_left]

theorem notes_subscribeTo (filter : String) (qos : Qos) (g : Gateway σ) :
    (g.subscribeTo filter qos).notes =
      g.notes ++ [.subscribed filter qos (Transport.subscribe filter qos g.transport).1] :=
  rfl

theorem requests_registerSubscriber {g : Gateway σ} (hup : g.isConnected = true)
    (r : SubscriptionRecord) (subscriber : String) :
    (Event.registerSubscriber r subscriber).requests g =
      (turnover g.subscriptions.records
        (g.subscriptions.add r subscriber).2.records).map requestFor := by
  have happly : (Event.registerSubscriber r subscriber).apply g =
      if (g.subscriptions.add r subscriber).1 && g.isConnected then
        subscribeTo r.filter r.qos { g with subscriptions := (g.subscriptions.add r subscriber).2 }
      else { g with subscriptions := (g.subscriptions.add r subscriber).2 } :=
    rfl
  rw [hup, Bool.and_true] at happly
  rw [Subscriptions.records_add]
  split at happly
  · next hnew =>
    have hnotes := (congrArg notes happly).trans (notes_subscribeTo r.filter r.qos _)
    rw [if_pos hnew, turnover_concat (Subscriptions.add_fst_iff.1 hnew), requests_of_notes hnotes]
    rfl
  · next hnew =>
    have hnotes := (congrArg notes happly).trans (List.append_nil g.notes).symm
    rw [if_neg hnew, turnover_self, requests_of_notes hnotes]
    rfl

theorem notes_unsubscribeFrom (filter : String) (g : Gateway σ) :
    (g.unsubscribeFrom filter).notes =
      g.notes ++ [.unsubscribed filter (Transport.unsubscribe filter g.transport).1] :=
  rfl

theorem notes_foldl_unsubscribeFrom (records : List SubscriptionRecord) (g : Gateway σ) :
    ∃ new, (records.foldl (fun g r => g.unsubscribeFrom r.filter) g).notes = g.notes ++ new ∧
      new.filterMap Note.request? = records.map fun r => (r.filter, none) := by
  induction records generalizing g with
  | nil => exact ⟨[], (List.append_nil _).symm, rfl⟩
  | cons r records ih =>
    obtain ⟨new, hnotes, hnew⟩ := ih (g.unsubscribeFrom r.filter)
    refine ⟨.unsubscribed r.filter (Transport.unsubscribe r.filter g.transport).1 :: new, ?_, ?_⟩
    · rw [List.foldl_cons, hnotes, notes_unsubscribeFrom, List.append_assoc, List.singleton_append]
    · rw [List.map_cons, ← hnew]
      rfl

theorem requests_unregisterSubscriber {g : Gateway σ} (hup : g.isConnected = true)
    (htidy : IsTidy g.subscriptions) (subscriber : String) :
    (Event.unregisterSubscriber subscriber).requests g =
      (turnover g.subscriptions.records
        (g.subscriptions.remove subscriber).2.records).map requestFor := by
  obtain ⟨new, hnotes, hnew⟩ := notes_foldl_unsubscribeFrom (g.subscriptions.remove subscriber).1
    { g with subscriptions := (g.subscriptions.remove subscriber).2 }
  have happly : (Event.unregisterSubscriber subscriber).apply g =
      if g.isConnected then
        (g.subscriptions.remove subscriber).1.foldl (fun g r => g.unsubscribeFrom r.filter)
          { g with subscriptions := (g.subscriptions.remove subscriber).2 }
      else { g with subscriptions := (g.subscriptions.remove subscriber).2 } :=
    rfl
  rw [if_pos hup] at happly
  rw [requests_of_notes ((congrArg notes happly).trans hnotes), hnew,
    turnover_of_subset (Subscriptions.records_remove_sublist _ _).subset,
    ← htidy.removed_eq_filter, List.map_map]
  rfl

/-- What is asked in one event is what its turnover of records asks for. -/
theorem requests_eq_turnover {g : Gateway σ} (hs : g.Sound) (htidy : IsTidy g.subscriptions)
    (e : Event σ) (hup : e.isRegistration = true → g.isConnected = true) :
    (if e.isRegistration then e.requests g else []) =
      (turnover g.subscriptions.records (e.apply g).subscriptions.records).map requestFor := by
  rw [subscriptions_apply hs]
  cases h : e.isRegistration with
  | false =>
    rw [changes_eq_nil h, List.foldl_nil, turnover_self]
    rfl
  | true =>
    rw [if_pos rfl]
    cases e with
    | registerSubscriber r subscriber => exact requests_registerSubscriber (hup h) r subscriber
    | unregisterSubscriber subscriber =>
      exact requests_unregisterSubscriber (hup h) htidy subscriber
    | _ => cases h

/-- On a connection that is up whenever subscribers come or go, what is asked for them is what the
turnover of records asks for. -/
theorem registrationRequests_eq {g : Gateway σ} (hnew : g.IsNew) (past events : List (Event σ))
    (hup : ∀ front e behind, events = front ++ e :: behind → e.isRegistration = true →
      ((g.after past).after front).isConnected = true) :
    registrationRequests (g.after past) events =
      (turnovers (g.after past) events).map requestFor := by
  induction events generalizing past with
  | nil => rfl
  | cons e events ih =>
    have hfirst := requests_eq_turnover (sound_after hnew.sound past) (isTidy_after hnew past) e
      (hup [] e events rfl)
    have hrest := ih (past ++ [e]) fun front e' behind hevents he' => by
      rw [← apply_after]
      exact hup (e :: front) e' behind (congrArg (e :: ·) hevents) he'
    rw [registrationRequests, turnovers, List.map_append, hfirst, apply_after, hrest]

/-! ## 4. All registries, and all gateways -/

/-- **A registry holds whoever was added and not taken away, and tells what becomes of its records.
On a connection that is up, the transport is asked for each record by turns: when it gets its first
subscriber, and when it loses its last.** -/
theorem registrations_are_told {τ : Type} [DecidableEq τ] {options : Options} {transport : σ}
    {device : Device} {clock : Clock} {verifier : Option (Topic → Payload → Bool)} {g : Gateway σ}
    (hcreate : create options transport device clock verifier = .ok g)
    (past events : List (Event σ))
    (hup : ∀ front e behind, events = front ++ e :: behind → e.isRegistration = true →
      ((g.after past).after front).isConnected = true) :
    (∀ changes : List (Change τ), Tells changes (ofChanges changes)) ∧
    (g.after past).subscriptions = ofChanges (past.flatMap Event.changes) ∧
    registrationRequests (g.after past) events =
      (turnovers (g.after past) events).map requestFor ∧
    ∀ r, (decide (r ∈ (g.after past).subscriptions.records) ::
      flips r (turnovers (g.after past) events)).IsChain (· ≠ ·) := by
  have hnew := isNew_of_create hcreate
  exact ⟨fun changes => (Subscriptions.reflects_ofChanges changes).tells,
    subscriptions_after hnew past, registrationRequests_eq hnew past events hup,
    alternates hnew past events⟩

/-- Two subscribers that share a record, and a second record for the same filter. -/
theorem registrations_are_told_of_shared_record :
    let r : SubscriptionRecord := ⟨"a/b", .atMostOnce⟩
    let r' : SubscriptionRecord := ⟨"a/b", .atLeastOnce⟩
    let g : Gateway Loopback := { loopback with transport := { connected := true } }
    let events : List (Event Loopback) :=
      [.registerSubscriber r "x", .registerSubscriber r "y", .registerSubscriber r' "x",
        .unregisterSubscriber "x", .registerSubscriber r' "y", .unregisterSubscriber "y"]
    (create {} { connected := true } {} .epoch none = .ok g ∧
      ∀ front e behind, events = front ++ e :: behind → e.isRegistration = true →
        (g.after front).isConnected = true) ∧
    registrationRequests g events =
      [("a/b", some .atMostOnce), ("a/b", some .atLeastOnce), ("a/b", none),
        ("a/b", some .atLeastOnce), ("a/b", none), ("a/b", none)] := by
  intro r r' g events
  have hcreate : create {} { connected := true } {} .epoch none = .ok g := rfl
  have hfronts : ∀ n ∈ List.range 6, (g.after (events.take n)).isConnected = true := by decide
  have hup : ∀ front e behind, events = front ++ e :: behind → e.isRegistration = true →
      (g.after front).isConnected = true := by
    intro front e behind hevents _
    have hfront : events.take front.length = front := by rw [hevents, List.take_left]
    have hlength : 6 = front.length + (behind.length + 1) := by
      rw [← List.length_cons, ← List.length_append, ← hevents]
      rfl
    rw [← hfront]
    exact hfronts _ (List.mem_range.2 (by omega))
  have htold := registrations_are_told (τ := Nat) hcreate [] events hup
  exact ⟨⟨hcreate, hup⟩, htold.2.2.1.trans (by decide)⟩

end Uplink.Gateway
