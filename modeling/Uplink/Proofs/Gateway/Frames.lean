import Uplink.Proofs.Delivery.Tickets
import Uplink.Proofs.Gateway.Turns
import Uplink.Proofs.Pool.Order

/-!
# What turns leave alone

Whoever takes a turn leaves the others to what they are about. Options and subscribers do not change
in a turn, nothing new is kept for later, no job is submitted, and a ticket that was taken before is
used only by its own publisher.
-/

namespace Uplink.Gateway

variable {σ : Type}

/-- What the turn of a strand leaves alone, on the way from one gateway to the other. A message that
is handed over may bring a new strand with it, for its acknowledgements. -/
structure Spares (strand : Strand) (g g' : Gateway σ) : Prop where
  activity : ∀ other, other ≠ strand → g'.activity other = g.activity other ∨
    g.activity other = none ∧ ∃ number, other = .acknowledgement number
  notes : g.notes <+: g'.notes
  options : g'.options = g.options
  subscriptions : g'.subscriptions = g.subscriptions
  stopping : g.stopping = true → g'.stopping = true
  kept : ∀ kind, g.debouncer.kept kind = none → g'.debouncer.kept kind = none
  pool : g.pool.Proceeds g'.pool
  tracker : g.tracker.Renews g'.tracker

namespace Spares

variable {strand other : Strand} {g g' g'' : Gateway σ}

theorem trans (h : Spares strand g g') (h' : Spares strand g' g'') : Spares strand g g'' where
  activity other hne := by
    obtain heq | hnew := h.activity other hne
    · obtain heq' | ⟨hnone, hnumber⟩ := h'.activity other hne
      · exact .inl (heq'.trans heq)
      · exact .inr ⟨heq ▸ hnone, hnumber⟩
    · exact .inr hnew
  notes := h.notes.trans h'.notes
  options := h'.options.trans h.options
  subscriptions := h'.subscriptions.trans h.subscriptions
  stopping hstop := h'.stopping (h.stopping hstop)
  kept kind hnone := h'.kept kind (h.kept kind hnone)
  pool := h.pool.trans h'.pool
  tracker := h.tracker.trans h'.tracker

theorem of_inert (h : g' = { g with
    transport := g'.transport, state := g'.state, defaultFilter := g'.defaultFilter
    finished := g'.finished, agenda := g'.agenda }) : Spares strand g g' := by
  rw [h]
  exact ⟨fun _ _ => .inl rfl, List.prefix_rfl, rfl, rfl, id, fun _ => id, .refl _, .refl _⟩

theorem refl (strand : Strand) (g : Gateway σ) : Spares strand g g := of_inert rfl

/-- Nothing is kept for later that was not kept before. -/
theorem withDebouncer (h : Spares strand g g') {debouncer : Debouncer Message}
    (hkept : ∀ kind, g.debouncer.kept kind = none → debouncer.kept kind = none) :
    Spares strand g { g' with debouncer } :=
  { h with kept := hkept }

theorem withTracker (h : Spares strand g g') {tracker : Delivery.Tracker}
    (hrenews : g.tracker.Renews tracker) : Spares strand g (g'.track tracker) :=
  { h with tracker := hrenews }

theorem go (h : Spares strand g g') {result : List Pool.Strand × Pool (List Step)}
    (hproceeds : g'.pool.Proceeds result.2) : Spares strand g (g'.go result) :=
  { h with pool := h.pool.trans hproceeds }

theorem activity_of_some (h : Spares strand g g') (hne : other ≠ strand) {a : Activity}
    (ha : g.activity other = some a) : g'.activity other = some a := by
  obtain heq | ⟨hnone, -⟩ := h.activity other hne
  · exact heq.trans ha
  · rw [hnone] at ha
    cases ha

theorem activity_eq (h : Spares strand g g') (hne : other ≠ strand)
    (hother : ∀ number, other ≠ .acknowledgement number) :
    g'.activity other = g.activity other := by
  obtain heq | ⟨-, number, hnumber⟩ := h.activity other hne
  · exact heq
  · exact absurd hnumber (hother number)

end Spares

/-! ## 1. Parts of steps -/

section Parts

variable (strand : Strand) (g : Gateway σ)

theorem spares_notes (new : List Note) : Spares strand g { g with notes := g.notes ++ new } :=
  { Spares.refl strand g with notes := List.prefix_append .. }

theorem spares_foldl_note {α : Type} (note : α → Note) (list : List α) :
    Spares strand g (list.foldl (fun g a => g.note (note a)) g) := by
  rw [foldl_note]
  exact spares_notes ..

theorem spares_acknowledge (id : Nat) (topic : String) (ack : Delivery.Acknowledgement) :
    Spares strand g (g.acknowledge id topic ack) :=
  ((Spares.refl strand g).withTracker (g.tracker.renews_resolve id ack)).trans
    (spares_foldl_note ..)

theorem spares_drop : Spares strand g (g.drop strand) :=
  { Spares.refl strand g with
    activity := fun other hne => .inl (by rw [activity_drop, if_neg hne]) }

theorem spares_hold (a : Activity) : Spares strand g (g.hold strand a) :=
  { Spares.refl strand g with
    activity := fun other hne => .inl (by rw [activity_hold, if_neg hne]) }

theorem spares_setAlarm (other : Strand) (hold : Hold) :
    Spares strand g (g.setAlarm other hold) := by
  obtain ⟨agenda, heq⟩ := setAlarm_eq other hold g
  rw [heq]
  exact .of_inert rfl

theorem spares_finish (result : Result) : Spares strand g (g.finish strand result) :=
  keeps_finish (P := Spares strand g) result (spares_drop strand g)
    (fun _ h => h.trans (.of_inert rfl)) (fun _ h => h.go (Pool.proceeds_finish ..))

theorem spares_expect (id : Nat) (message : Outbound) : Spares strand g (g.expect id message) := by
  refine { Spares.refl strand g with activity := fun other _ => ?_ }
  rw [activity_expect]
  cases g.activity other with
  | some a => exact .inl rfl
  | none =>
    by_cases hnew : other = .acknowledgement g.acknowledged
    · exact .inr ⟨rfl, _, hnew⟩
    · rw [if_neg hnew]
      exact .inl rfl

theorem spares_asks {list : List (String × Bool)} {g' : Gateway σ} (h : Asks list g g') :
    Spares strand g g' := by
  obtain ⟨new, hnotes, -⟩ := h.notes
  have hinert : Spares strand g { g with transport := g'.transport } := .of_inert rfl
  rw [h.same, hnotes]
  exact hinert.trans (spares_notes ..)

end Parts

variable [Transport σ]

/-! ## 2. Steps -/

section Steps

variable (strand : Strand) (g : Gateway σ)

theorem spares_hand (message : Outbound) : Spares strand g (g.hand message).2 := by
  refine keeps_hand (P := Spares strand g) ?_ fun id g' h => h.trans (spares_expect strand g' ..)
  have hinert : Spares strand g
      { g with transport := (Transport.publish message g.transport).2 } := .of_inert rfl
  exact hinert.trans (spares_notes ..)

theorem tracker_hand (message : Outbound) : (g.hand message).2.tracker = g.tracker :=
  keeps_hand (P := fun g' => g'.tracker = g.tracker) rfl fun _ _ h => h

theorem finished_hand (message : Outbound) : (g.hand message).2.finished = g.finished :=
  keeps_hand (P := fun g' => g'.finished = g.finished) rfl fun _ _ h => h

theorem spares_handTracked (message : Outbound) :
    Spares strand g (g.handTracked message).2 := by
  let armed := g.track (g.tracker.arm message.qos).2
  have harm : Spares strand g armed := (Spares.refl strand g).withTracker (g.tracker.renews_arm _)
  have hhand := harm.trans (spares_hand strand armed message)
  have htracker : (armed.hand message).2.tracker = armed.tracker := tracker_hand armed message
  unfold handTracked
  dsimp only
  split
  · next heq =>
    rw [heq] at hhand htracker
    -- The ticket that was taken is given back.
    refine hhand.withTracker ?_
    rw [htracker]
    exact (g.tracker.renews_arm _).trans (Delivery.Tracker.renews_disarm ..)
  · next id g' heq =>
    rw [heq] at hhand htracker
    -- The ticket that was taken is used.
    have hbegins : g.tracker.Renews (g'.tracker.begin (g.tracker.arm message.qos).1 id
        (g'.agenda.now + g'.options.deliveryWaitMs) g'.agenda.now).2 := by
      rw [htracker]
      exact g.tracker.renews_begin ..
    split
    · exact hhand.withTracker hbegins
    · exact hhand.withTracker hbegins

theorem spares_deliver (message : Message) (handOver : Bool) :
    Spares strand g (g.deliver message handOver).2 :=
  keeps_deliver (.refl strand g) (spares_hand strand g) (spares_handTracked strand g)
    message handOver

theorem spares_reconcile (isNew : Bool) : Spares strand g (g.reconcile isNew) := by
  have hdefault : Spares strand g { g with defaultFilter := g.desiredFilter } := .of_inert rfl
  exact hdefault.trans (spares_asks strand _ (asks_reconcile isNew g))

/-- No step changes what others are about, or keeps anything for later. -/
theorem spares_take (s : Step) : Spares strand g (g.take s).2 := by
  cases s with
  | enter | closeTransport | pause => exact .of_inert rfl
  | dropPending => exact (Spares.refl strand g).withDebouncer fun _ _ => rfl
  | certificate kind => exact spares_deliver ..
  | flush message | publish message =>
    rw [take]
    split
    · exact .refl strand g
    · exact spares_deliver ..
  | reconcile isNew => exact spares_reconcile ..
  | resubscribe => exact spares_asks strand g (asks_resubscribe g)
  | tell event => exact spares_foldl_note ..
  | closePool =>
    rw [take]
    split
    · exact .refl strand g
    · exact ((Spares.refl strand g).go (Pool.proceeds_close ..)).go (Pool.proceeds_closing ..)
  | note n => exact spares_notes strand g [n]
  | acknowledge id topic ack => exact spares_acknowledge ..

theorem spares_run (steps : List Step) (result : Result) :
    Spares strand g (g.run strand steps result) :=
  keeps_run (P := Spares strand g)
    (fun s _ g' h => h.trans (spares_take strand g' s))
    (fun hold _ _ g' h =>
      h.trans ((spares_hold strand g' _).trans (spares_setAlarm strand _ strand hold)))
    (fun result g' h => h.trans (spares_finish strand g' result))
    (fun _ _ => trivial) result (.refl strand g)

end Steps

/-! ## 3. Turns -/

section Turns

variable (strand : Strand) (g : Gateway σ)

theorem spares_look (hold : Hold) (rest : List Step) :
    Spares strand g (g.look strand hold rest) := by
  have hrun (result : Result) (g' : Gateway σ) :
      Spares strand g' ((g'.drop strand).run strand rest result) :=
    (spares_drop strand g').trans (spares_run ..)
  unfold look
  cases hold with
  | moment time =>
    dsimp only
    split
    · exact .refl strand g
    · exact hrun nothing g
  | delivery ticket id deadline =>
    have hpoll := (Spares.refl strand g).withTracker
      (g.tracker.renews_poll ticket deadline g.agenda.now)
    dsimp only
    split
    · exact hpoll.trans (hrun ..)
    · exact hpoll
  | poolEnd =>
    have hclosing := (Spares.refl strand g).go (g.pool.proceeds_closing g.agenda.now)
    dsimp only
    split
    · exact hclosing.trans (hrun ..)
    · exact hclosing.trans (spares_setAlarm ..)

theorem spares_beginConnect : Spares strand g g.beginConnect.2.2 := by
  unfold beginConnect
  dsimp only
  split <;> exact .of_inert rfl

theorem spares_beginDisconnect : Spares strand g g.beginDisconnect.2.2 := by
  unfold beginDisconnect
  split
  · exact .refl strand g
  · dsimp only
    split <;> exact .of_inert rfl

theorem spares_beginCall (call : Call) : Spares strand g (g.beginCall call).2.2 := by
  cases call with
  | start =>
    rw [beginCall]
    split
    · exact .refl strand g
    · split
      · exact .refl strand g
      · exact spares_beginConnect strand g
  | connect =>
    rw [beginCall]
    split
    · exact .refl strand g
    · exact spares_beginConnect strand g
  | disconnect => exact spares_beginDisconnect strand g
  | shutDown =>
    let stopped : Gateway σ := { g with stopping := true, debouncer := g.debouncer.cancel }
    have hstop : Spares strand g stopped :=
      { Spares.refl strand g with stopping := fun _ => rfl, kept := fun _ _ => rfl }
    exact hstop.trans (spares_beginDisconnect strand stopped)
  | publish | callback => exact .refl strand g

theorem spares_turnOf : Spares strand g (g.turnOf strand) := by
  unfold turnOf
  split
  · exact (Spares.refl _ g).go (Pool.proceeds_turn ..)
  · split
    · exact spares_run ..
    · exact .refl _ g
  · next generation =>
    split
    · exact .refl _ g
    · next time debouncer heq =>
      -- The window begins, and keeps what it is about to hand over at its end.
      have hkept := Debouncer.kept_glance generation g.agenda.now g.debouncer
      rw [heq] at hkept
      have hagenda : Spares (.window generation) g
          { g with agenda :=
              (g.agenda.silence (.window generation)).alarm time (.window generation) } :=
        .of_inert rfl
      exact hagenda.withDebouncer fun kind hnone => (congrFun hkept kind).trans hnone
    · next debouncer _ =>
      have hflush : Spares (.window generation) g { g with debouncer := debouncer.flushed } :=
        (Spares.refl _ g).withDebouncer fun _ _ => rfl
      exact hflush.trans (spares_run ..)
  · exact .refl _ g

/-- **A turn leaves the others to what they are about.** -/
theorem spares_turn : Spares strand g (g.turn strand) := by
  have hdrop := spares_drop strand g
  unfold turn
  split
  · split
    · exact spares_turnOf strand g
    · next call _ =>
      exact (hdrop.trans (spares_beginCall strand (g.drop strand) call)).trans (spares_run ..)
    · exact hdrop.trans (spares_run ..)
    · exact spares_look ..
  · exact hdrop

end Turns

end Uplink.Gateway
