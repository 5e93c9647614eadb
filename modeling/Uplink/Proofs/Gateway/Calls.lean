import Uplink.Proofs.Gateway.Calm

/-!
# Calls about filters

What a gateway asks of its transport is to be subscribed to filters and no longer to be. Three of
its parts do so: subscribers that come and go, the filter that is for the gateway itself, and the
setting up of a connection. The module gives the calls that each of them makes.
-/

namespace Uplink.Gateway

variable {σ : Type}

/-- A call that changes what the transport is subscribed to: a filter, and whether it is wanted. -/
def Note.call? : Note → Option (String × Bool)
  | .subscribed filter _ _ => some (filter, true)
  | .unsubscribed filter _ => some (filter, false)
  | _ => none

/-- The calls that were made to the transport about filters, in their order. -/
def calls (g : Gateway σ) : List (String × Bool) := g.notes.filterMap Note.call?

/-- From one gateway to the other, these calls were made about filters and nothing else happened. -/
structure Asks (list : List (String × Bool)) (g g' : Gateway σ) : Prop where
  same : g' = { g with transport := g'.transport, notes := g'.notes }
  notes : ∃ new, g'.notes = g.notes ++ new ∧ new.map Note.call? = list.map some

namespace Asks

variable {list more : List (String × Bool)} {g g' g'' : Gateway σ}

theorem refl (g : Gateway σ) : Asks [] g g := ⟨rfl, [], by simp, rfl⟩

theorem trans (h : Asks list g g') (h' : Asks more g' g'') : Asks (list ++ more) g g'' := by
  obtain ⟨new, hnew, hmap⟩ := h.notes
  obtain ⟨new', hnew', hmap'⟩ := h'.notes
  refine ⟨?_, new ++ new', by rw [hnew', hnew, List.append_assoc], by simp [hmap, hmap']⟩
  rw [h'.same, h.same]

theorem options (h : Asks list g g') : g'.options = g.options := by rw [h.same]

theorem subscriptions (h : Asks list g g') : g'.subscriptions = g.subscriptions := by rw [h.same]

theorem defaultFilter (h : Asks list g g') : g'.defaultFilter = g.defaultFilter := by rw [h.same]

theorem stopping (h : Asks list g g') : g'.stopping = g.stopping := by rw [h.same]

theorem state (h : Asks list g g') : g'.state = g.state := by rw [h.same]

theorem activities (h : Asks list g g') : g'.activities = g.activities := by rw [h.same]

theorem activity (h : Asks list g g') : g'.activity = g.activity := by rw [h.same]; rfl

theorem isFree (h : Asks list g g') {strand : Strand} (hfree : g.IsFree strand) :
    g'.IsFree strand := by
  intro a ha
  rw [h.activity] at ha
  exact hfree a ha

theorem sound (h : Asks list g g') (hs : g.Sound) : g'.Sound := by
  rw [h.same]
  exact ⟨hs.1, hs.2⟩

theorem calls (h : Asks list g g') : g'.calls = g.calls ++ list := by
  obtain ⟨new, hnew, hmap⟩ := h.notes
  have hnew' : new.filterMap Note.call? = list := by
    have h := congrArg (List.filterMap id) hmap
    rw [List.filterMap_map, List.filterMap_map] at h
    exact h.trans List.filterMap_some
  rw [Gateway.calls, hnew, List.filterMap_append, hnew', Gateway.calls]

theorem withDefault (h : Asks list g g') (filter : Option String) :
    Asks list { g with defaultFilter := filter } { g' with defaultFilter := filter } :=
  ⟨by rw [h.same], h.notes⟩

end Asks

theorem Calm.calls {hands : Bool} {g g' : Gateway σ} (h : Calm hands g g') : g'.calls = g.calls := by
  obtain ⟨new, hnew, hall⟩ := h.notes
  have hnone : new.filterMap Note.call? = [] := by
    refine List.filterMap_eq_nil_iff.2 fun n hn => ?_
    have htold := hall n hn
    cases n <;> first | rfl | cases hands <;> cases htold
  rw [Gateway.calls, hnew, List.filterMap_append, hnone, List.append_nil, Gateway.calls]

variable [Transport σ]

theorem asks_subscribeTo (filter : String) (qos : Qos) (g : Gateway σ) :
    Asks [(filter, true)] g (g.subscribeTo filter qos) :=
  ⟨rfl, [_], rfl, rfl⟩

theorem asks_unsubscribeFrom (filter : String) (g : Gateway σ) :
    Asks [(filter, false)] g (g.unsubscribeFrom filter) :=
  ⟨rfl, [_], rfl, rfl⟩

theorem asks_foldl_unsubscribeFrom (records : List SubscriptionRecord) (g : Gateway σ) :
    Asks (records.map fun r => (r.filter, false)) g
      (records.foldl (fun g r => g.unsubscribeFrom r.filter) g) := by
  induction records generalizing g with
  | nil => exact .refl g
  | cons r records ih => exact (asks_unsubscribeFrom r.filter g).trans (ih _)

theorem asks_resubscribe (g : Gateway σ) :
    Asks (g.subscriptions.records.map fun r => (r.filter, true)) g g.resubscribe := by
  rw [resubscribe]
  generalize g.subscriptions.records = records
  induction records generalizing g with
  | nil => exact .refl g
  | cons r records ih => exact (asks_subscribeTo r.filter r.qos g).trans (ih _)

/-- The calls that bring the transport from the previous default filter to the desired one. -/
def reconciling (isNew : Bool) (previous desired : Option String) : List (String × Bool) :=
  (previous.toList.filter fun filter => desired ≠ some filter).map (·, false) ++
    (desired.toList.filter fun filter => isNew || previous ≠ some filter).map (·, true)

theorem asks_reconcile (isNew : Bool) (g : Gateway σ) :
    Asks (reconciling isNew g.defaultFilter g.desiredFilter)
      { g with defaultFilter := g.desiredFilter } (g.reconcile isNew) := by
  -- First the previous filter is given up, unless it is still wanted; then the desired one is asked
  -- for, unless it was already.
  have hprevious : Asks
      ((g.defaultFilter.toList.filter fun f => g.desiredFilter ≠ some f).map (·, false)) g
      (g.defaultFilter.elim g fun filter =>
        if g.desiredFilter = some filter then g else g.unsubscribeFrom filter) := by
    cases g.defaultFilter with
    | none => exact .refl g
    | some filter =>
      dsimp only [Option.elim]
      split
      · next h => simpa [h] using Asks.refl g
      · next h => simpa [h] using asks_unsubscribeFrom filter g
  have hdesired (g' : Gateway σ) : Asks
      ((g.desiredFilter.toList.filter fun f => isNew || g.defaultFilter ≠ some f).map (·, true)) g'
      (g.desiredFilter.elim g' fun filter =>
        if !isNew && g.defaultFilter = some filter then g'
        else g'.subscribeTo filter .atLeastOnce) := by
    cases g.desiredFilter with
    | none => exact .refl g'
    | some filter =>
      dsimp only [Option.elim]
      split
      · next h =>
        rw [Bool.and_eq_true, Bool.not_eq_true', decide_eq_true_eq] at h
        simpa [h] using Asks.refl g'
      · next h =>
        have hkept : isNew = true ∨ ¬g.defaultFilter = some filter := by
          cases isNew with
          | true => exact .inl rfl
          | false => exact .inr (by simpa using h)
        simpa [hkept] using asks_subscribeTo filter .atLeastOnce g'
  have h := (hprevious.trans (hdesired _)).withDefault g.desiredFilter
  rw [reconcile, reconciling]
  revert h
  cases g.defaultFilter <;> cases g.desiredFilter <;> exact id

/-- On a new connection, every filter that is wanted is asked for, and none is given up after it was
asked for. -/
theorem asks_setUp (g : Gateway σ) :
    Asks (reconciling true g.defaultFilter g.desiredFilter ++
      g.subscriptions.records.map fun r => (r.filter, true))
      { g with defaultFilter := g.desiredFilter } (g.reconcile true).resubscribe := by
  have h := asks_reconcile true g
  have hr := asks_resubscribe (g.reconcile true)
  rw [h.subscriptions] at hr
  exact h.trans hr

end Uplink.Gateway
