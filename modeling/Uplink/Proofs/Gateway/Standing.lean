import Uplink.Proofs.Gateway.Stillness

/-!
# Whether a gateway knows that its link is up

The state of a gateway and the link of its transport are told apart by a call to connect while the link
is up of which no new connection comes. From then on, and until the gateway is told of a connection,
finds one, or loses the link, they disagree. At all other times they agree when nothing is under way.
-/

namespace Uplink.Gateway

variable {σ : Type} [Transport σ]

/-! ## 1. Turns -/

/-- To connect brings up a new connection. -/
def bringsUp (g : Gateway σ) : Bool :=
  match (Transport.connect g.transport).1 with
  | .ok .established => true
  | _ => false

/-- A strand is about to connect although the link is up, and no new connection will come of it. -/
def strays (g : Gateway σ) (strand : Strand) : Bool :=
  match g.activity strand with
  | some (.begins .connect) => !g.stopping && g.isConnected && !g.bringsUp
  | _ => false

/-- Somebody has taken leave and is about to close the transport. -/
def IsClosingDown (g : Gateway σ) : Prop :=
  ∃ caller hold rest, g.activity (.call caller) = some (.waits hold (.closeTransport :: rest))

inductive Moves (strays opens : Bool) (g g' : Gateway σ) : Prop where
  | still (h : Still g g') (hclosing : g.IsClosingDown → g'.IsClosingDown)
    (hstrays : strays = false) (hopens : opens = false)
  | opens (hstate : g'.state = .connected) (hlink : g'.isConnected = true)
    (hstrays : strays = false) (hopens : opens = true)
  | closes (hstate : g'.state ≠ .connected) (hlink : g'.isConnected = false)
    (hstrays : strays = false)
  | leaves (hstate : g'.state ≠ .connected) (hclosing : g'.IsClosingDown)
    (hstrays : strays = false)
  | strays (hstate : g'.state ≠ .connected) (hlink : g'.isConnected = true)
    (hstrays : strays = true)

/-- Whoever else is about to close the transport still is after a turn. -/
theorem isClosingDown_turn {g : Gateway σ} {strand : Strand}
    (h : ∀ hold rest, g.activity strand ≠ some (.waits hold (.closeTransport :: rest)))
    (hclosing : g.IsClosingDown) : (g.turn strand).IsClosingDown := by
  obtain ⟨caller, hold, rest, ha⟩ := hclosing
  have hne : .call caller ≠ strand := by
    rintro rfl
    exact h hold rest ha
  exact ⟨caller, hold, rest, (spares_turn strand g).activity_of_some hne ha⟩

section Faithful

variable (law : Transport.IsFaithful σ)

include law

/-- To connect brings up a connection, or leaves the link as it is: a gateway that was not connected to
begin with goes astray if the link is up. -/
theorem moves_beginConnect (strand : Strand) (g₀ g : Gateway σ) :
    let b := g₀.beginConnect
    let g' := b.2.2.run strand b.2.1 b.1
    (g₀.Ordered → g'.Ordered) ∧
      Moves (g₀.isConnected && !g₀.bringsUp) (Deed.ofSteps b.2.1 == .opens) g g' := by
  -- An attempt that comes to nothing leaves the link as it is.
  have hvain (hfails : (Transport.connect g₀.transport).1 ≠ .ok .established) (state : State)
      (hstate : state ≠ .connected) (result : Result) :
      let g' := ({ g₀ with transport := (Transport.connect g₀.transport).2, state } : Gateway σ).run
        strand [] result
      (g₀.Ordered → g'.Ordered) ∧ Moves (g₀.isConnected && !false) false g g' := by
    intro g'
    have hfinish := still_finish strand result
      ({ g₀ with transport := (Transport.connect g₀.transport).2, state } : Gateway σ)
    have hstate' : g'.state ≠ .connected := fun h => hstate (hfinish.state.symm.trans h)
    have hlink : g'.isConnected = g₀.isConnected :=
      hfinish.link.trans (law.connect g₀.transport hfails)
    refine ⟨fun hs => hfinish.ordered (hs.of_same rfl rfl), ?_⟩
    cases hup : g₀.isConnected with
    | true => exact .strays hstate' (hlink.trans hup) rfl
    | false => exact .closes hstate' (hlink.trans hup) rfl
  rw [beginConnect, bringsUp]
  dsimp only
  cases hresult : (Transport.connect g₀.transport).1 with
  | error e => exact hvain (by simp [hresult]) .disconnected (by simp) (.error (.transport e))
  | ok connecting =>
    cases connecting with
    | already => exact hvain (by simp [hresult]) .connecting (by simp) nothing
    | established =>
      have hrun := run_established law strand [.tell .established] (by simp [Step.isStill])
        nothing ({ g₀ with transport := (Transport.connect g₀.transport).2, state := .connecting } :
          Gateway σ)
      exact ⟨fun hs => hrun.ordered (hs.of_same rfl rfl),
        .opens hrun.state (hrun.link.trans (law.established g₀.transport hresult)) (by simp) rfl⟩

/-- To disconnect changes nothing, or the gateway is not connected any more. -/
theorem moves_beginDisconnect (caller : Caller) (more : List Step) (h : ∀ s ∈ more, s.isStill)
    (hdeed : Deed.ofSteps more = .nothing) (result : Result) {g g₀ : Gateway σ} (hg : Still g g₀) :
    let b := g₀.beginDisconnect
    let g' := b.2.2.run (.call caller) (b.2.1 ++ more) result
    (g.IsClosingDown → g'.IsClosingDown) → (g₀.Ordered → g'.Ordered) ∧
      Moves false (Deed.ofSteps (b.2.1 ++ more) == .opens) g g' := by
  have hnothing : (Deed.ofSteps more == .opens) = false := by rw [hdeed]; rfl
  rw [beginDisconnect]
  split
  · intro _ _ hclosing
    have hrun := still_run law (.call caller) h result g₀
    exact ⟨hrun.ordered, .still (hg.trans hrun) hclosing rfl hnothing⟩
  · have hbegin : Still g₀ { g₀ with transport := (Transport.beginClose g₀.transport).2 } :=
      .of_same rfl (law.beginClose g₀.transport) rfl rfl
    dsimp only
    split
    · intro hclosing
      have hrun := hbegin.trans (still_run law (.call caller) h result _)
      exact ⟨hrun.ordered, .still (hg.trans hrun) hclosing rfl hnothing⟩
    · intro _
      have hparting : IsParting
          (.closeTransport :: .enter .disconnected :: .tell .disconnected :: more) := by
        refine ⟨_, rfl, fun s hs => ?_⟩
        rcases List.mem_cons.1 hs with rfl | hs
        · rfl
        · exact h s hs
      obtain ⟨hstate, hordered, hlink⟩ := run_leaving law caller hparting result
        { g₀ with transport := (Transport.beginClose g₀.transport).2 }
      refine ⟨fun hs => hordered (hbegin.ordered hs), ?_⟩
      rcases hlink with hdown | ⟨hold, ha⟩
      · exact .closes hstate hdown rfl
      · exact .leaves hstate ⟨caller, hold, _, ha⟩ rfl

theorem moves_begins {g : Gateway σ} (hs : g.Ordered) {caller : Caller} {call : Call}
    (ha : g.activity (.call caller) = some (.begins call)) (hcall : ∀ c, call ≠ .callback c) :
    (g.turn (.call caller)).Ordered ∧
      Moves (g.strays (.call caller)) (g.deed (.call caller) == .opens) g
        (g.turn (.call caller)) := by
  have hdrop := still_drop (.call caller) g
  have hs₀ := hdrop.ordered hs
  have hclosing : g.IsClosingDown → (g.turn (.call caller)).IsClosingDown :=
    isClosingDown_turn (by simp [ha])
  have hbegun : g.begun (.call caller) call = (g.drop (.call caller)).beginCall call := rfl
  have halive : g.isAlive (.call caller) = true := rfl
  have hturn := turn_eq halive
  rw [ha] at hturn
  dsimp only at hturn
  rw [hbegun] at hturn
  rw [strays, deed, ha]
  dsimp only
  rw [hbegun]
  rw [hturn] at hclosing ⊢
  have hconnect := moves_beginConnect law (.call caller) (g.drop (.call caller)) g
  cases call with
  | callback c => exact absurd rfl (hcall c)
  | publish message =>
    have hstill : ∀ s ∈ [Step.publish message], s.isStill := by simp [Step.isStill]
    have hrun := still_run law (.call caller) hstill nothing (g.drop (.call caller))
    exact ⟨hrun.ordered hs₀, .still (hdrop.trans hrun) hclosing rfl rfl⟩
  | start =>
    rw [beginCall] at hclosing ⊢
    split
    · next hstop =>
      rw [if_pos hstop] at hclosing
      have hrun := still_finish (.call caller) (.error .shutDown) (g.drop (.call caller))
      exact ⟨hrun.ordered hs₀, .still (hdrop.trans hrun) hclosing rfl rfl⟩
    · split
      · next hup =>
        -- The link is up already, and the gateway takes notice of it.
        have hrun := run_established law (.call caller) [] (by simp) nothing
          (g.drop (.call caller))
        rw [List.append_nil] at hrun
        exact ⟨hrun.ordered (hs₀.of_same rfl rfl), .opens hrun.state (hrun.link.trans hup) rfl rfl⟩
      · next hup =>
        rw [Bool.not_eq_true] at hup
        rw [hup, Bool.false_and] at hconnect
        exact ⟨hconnect.1 hs₀, hconnect.2⟩
  | connect =>
    rw [beginCall] at hclosing ⊢
    split
    · next hstop =>
      rw [if_pos hstop] at hclosing
      have hrun := still_finish (.call caller) (.error .shutDown) (g.drop (.call caller))
      have hstop' : g.stopping = true := hstop
      exact ⟨hrun.ordered hs₀, .still (hdrop.trans hrun) hclosing (by simp [hstop']) rfl⟩
    · next hstop =>
      have hstop' : g.stopping = false := Bool.eq_false_iff.2 hstop
      rw [hstop', Bool.not_false, Bool.true_and]
      exact ⟨hconnect.1 hs₀, hconnect.2⟩
  | disconnect =>
    have hleave := moves_beginDisconnect law caller [] (by simp) rfl
      (g.drop (.call caller)).beginDisconnect.1 hdrop
    simp only [List.append_nil] at hleave
    obtain ⟨hordered, hmoves⟩ := hleave hclosing
    exact ⟨hordered hs₀, hmoves⟩
  | shutDown =>
    let stopped : Gateway σ :=
      { g.drop (.call caller) with
        stopping := true, debouncer := (g.drop (.call caller)).debouncer.cancel }
    have hstopped : Still (g.drop (.call caller)) stopped := .of_same rfl rfl rfl rfl
    obtain ⟨hordered, hmoves⟩ := moves_beginDisconnect law caller [.closePool]
      (by simp [Step.isStill]) rfl nothing (hdrop.trans hstopped) hclosing
    exact ⟨hordered (hstopped.ordered hs₀), hmoves⟩

omit law in
theorem quiet_of_not_begins {g : Gateway σ} {strand : Strand}
    (h : ∀ call, g.activity strand ≠ some (.begins call)) :
    g.strays strand = false ∧ (g.deed strand == .opens) = false := by
  constructor
  · rw [strays]
    split
    · next ha => exact absurd ha (h .connect)
    · rfl
  · refine beq_eq_false_iff_ne.2 fun hopens => ?_
    obtain ⟨call, ha, -⟩ := begins_of_deed (.inl hopens)
    exact h call ha

omit law in
theorem moves_of_still {g : Gateway σ} (hs : g.Ordered) {strand : Strand}
    (h : ∀ call, g.activity strand ≠ some (.begins call)) (hstill : Still g (g.turn strand))
    (hclosing : g.IsClosingDown → (g.turn strand).IsClosingDown) :
    (g.turn strand).Ordered ∧
      Moves (g.strays strand) (g.deed strand == .opens) g (g.turn strand) := by
  obtain ⟨hstrays, hopens⟩ := quiet_of_not_begins h
  exact ⟨hstill.ordered hs, .still hstill hclosing hstrays hopens⟩

theorem moves_waits {g : Gateway σ} (hs : g.Ordered) {strand : Strand}
    (halive : g.isAlive strand = true) {hold : Hold} {rest : List Step}
    (ha : g.activity strand = some (.waits hold rest)) :
    (g.turn strand).Ordered ∧
      Moves (g.strays strand) (g.deed strand == .opens) g (g.turn strand) := by
  have hbegins : ∀ call, g.activity strand ≠ some (.begins call) := by simp [ha]
  have hturn := turn_eq halive
  rw [ha] at hturn
  dsimp only at hturn
  cases hover : g.isOver hold with
  | false =>
    obtain ⟨hlook, hactivities⟩ := still_look strand rest hover
    refine moves_of_still hs hbegins (hturn ▸ hlook) ?_
    rintro ⟨caller, hold', rest', ha'⟩
    exact ⟨caller, hold', rest', by rw [hturn, activity, hactivities]; exact ha'⟩
  | true =>
    obtain ⟨g', result, hg', hlook⟩ := look_eq_run strand rest hover
    rw [hlook] at hturn
    -- Either nothing of this is about the connection, or the transport is closed now.
    rcases hs.activity strand _ ha with hrest | ⟨-, hparting⟩
    · refine moves_of_still hs hbegins ?_ (isClosingDown_turn fun hold' rest' hwaits => ?_)
      · rw [hturn]
        exact hg'.trans (still_run law strand hrest _ _)
      · rw [ha] at hwaits
        cases hwaits
        cases hrest _ List.mem_cons_self
    · obtain ⟨hstate, hlink, hkept⟩ := run_parting law strand hparting result g'
      rw [← hturn] at hstate hlink hkept
      refine ⟨hkept (hg'.ordered hs), .closes ?_ hlink (quiet_of_not_begins hbegins).1⟩
      simp [hstate]

omit law in
theorem moves_of_gone {g : Gateway σ} (hs : g.Ordered) {strand : Strand}
    (hgone : g.isAlive strand ≠ true) :
    (g.turn strand).Ordered ∧
      Moves (g.strays strand) (g.deed strand == .opens) g (g.turn strand) := by
  have hturn : g.turn strand = g.drop strand := by rw [turn, if_neg hgone]
  have hnone {a : Activity} (ha : g.activity strand = some a) :
      ¬∃ caller, strand = .call caller := by
    rintro ⟨caller, rfl⟩
    exact hgone rfl
  refine moves_of_still hs (fun call ha => hnone ha (hs.activity strand _ ha).1)
    (hturn ▸ still_drop strand g) (isClosingDown_turn fun hold rest ha => ?_)
  rcases hs.activity strand _ ha with hrest | ⟨hcaller, -⟩
  · cases hrest _ List.mem_cons_self
  · exact hnone ha hcaller

/-- **What a turn does to state and link.** -/
theorem moves_turn {g : Gateway σ} (hs : g.Ordered) (strand : Strand) :
    (g.turn strand).Ordered ∧
      Moves (g.strays strand) (g.deed strand == .opens) g (g.turn strand) := by
  by_cases halive : g.isAlive strand = true
  · have hturn := turn_eq halive
    cases ha : g.activity strand with
    | none =>
      rw [ha] at hturn
      refine moves_of_still hs (by simp [ha]) ?_ (isClosingDown_turn (by simp [ha]))
      rw [hturn]
      exact still_turnOf law hs strand
    | some a =>
      have hordered := hs.activity strand a ha
      cases a with
      | begins call =>
        obtain ⟨⟨caller, rfl⟩, hcall⟩ := hordered
        exact moves_begins law hs ha hcall
      | steps todo =>
        rw [ha] at hturn
        refine moves_of_still hs (by simp [ha]) ?_ (isClosingDown_turn (by simp [ha]))
        rw [hturn]
        exact (still_drop strand g).trans (still_run law strand hordered _ _)
      | waits hold rest => exact moves_waits law hs halive ha
  · exact moves_of_gone hs halive

end Faithful

/-! ## 2. Occurrences -/

/-- An event that is no change of the link, and no callback of the transport. -/
def Event.isOwn : Event σ → Bool
  | .link _ | .ask _ (.callback _) => false
  | _ => true

/-- What may occur to a gateway whose transport raises its callbacks. The gateway is told of a change
of the link at once, by somebody who does nothing else at that time. -/
inductive Occurrence (σ : Type) [Transport σ] where
  | own (e : Event σ) (h : e.isOwn = true)
  | comesUp (caller : Caller) (transport : σ) (h : Transport.isConnected transport = true)
  | isLost (caller : Caller) (transport : σ) (h : Transport.isConnected transport = false)

/-- The link changes, and the gateway is told of it. -/
def hear (caller : Caller) (c : Callback) (transport : σ) (g : Gateway σ) : Gateway σ :=
  if g.isDone caller then
    g.after [.link transport, .ask caller (.callback c), .turn (.call caller)]
  else g

namespace Occurrence

def apply : Occurrence σ → Gateway σ → Gateway σ
  | .own e _, g => e.apply g
  | .comesUp caller transport _, g => g.hear caller .established transport
  | .isLost caller transport _, g => g.hear caller .lost transport

/-- The gateway is told to connect although its link is up, and no new connection comes of it. -/
def strays (g : Gateway σ) : Occurrence σ → Bool
  | .own (.turn strand) _ => g.strays strand
  | _ => false

/-- The gateway is told of a connection, or finds one. -/
def opens (g : Gateway σ) : Occurrence σ → Bool
  | .own (.turn strand) _ => g.deed strand == .opens
  | .comesUp caller .. => g.isDone caller
  | _ => false

end Occurrence

/-- A gateway, and whether it has been astray since it was told to connect although its link was up:
no new connection came of it, and until now the gateway was neither told of a connection nor found
one, and the link was not down. -/
structure Watch (σ : Type) where
  gateway : Gateway σ
  astray : Bool := false

namespace Watch

def after (w : Watch σ) (o : Occurrence σ) : Watch σ :=
  let gateway := o.apply w.gateway
  { gateway
    astray := o.strays w.gateway || w.astray && !o.opens w.gateway && gateway.isConnected }

def ofOccurrences (g : Gateway σ) (occurrences : List (Occurrence σ)) : Watch σ :=
  occurrences.foldl after { gateway := g }

end Watch

section Faithful

variable (law : Transport.IsFaithful σ)

include law

theorem still_apply {g : Gateway σ} {e : Event σ} (hown : e.isOwn = true)
    (hturn : ∀ strand, e ≠ .turn strand) : Still g (e.apply g) := by
  cases e with
  | turn strand => exact absurd rfl (hturn strand)
  | link => cases hown
  | ask caller call =>
    rw [Event.apply]
    split
    · refine ⟨rfl, rfl, fun hs => ?_⟩
      have hbegins : (Activity.begins call).IsOrdered (.call caller) := by
        refine ⟨⟨caller, rfl⟩, ?_⟩
        rintro c rfl
        cases hown
      exact (hs.hold hbegins).of_same rfl rfl
    · exact .refl g
  | configure options =>
    rw [Event.apply]
    cases hok : g.configure options with
    | error e => exact .refl g
    | ok g' =>
      show Still g g'
      rw [configure_eq_ok hok]
      split
      · have hschedule : Still g (schedule .birth { g with options }) := .of_same rfl rfl rfl rfl
        exact hschedule.trans (still_reconcile law ..)
      · exact .of_same rfl rfl rfl rfl
  | registerSubscriber r subscriber =>
    have hadd : Still g { g with subscriptions := (g.subscriptions.add r subscriber).2 } :=
      .of_same rfl rfl rfl rfl
    rw [Event.apply, registerSubscriber]
    dsimp only
    split
    · exact hadd.trans (still_subscribeTo law ..)
    · exact hadd
  | unregisterSubscriber subscriber =>
    have hremove : Still g { g with subscriptions := (g.subscriptions.remove subscriber).2 } :=
      .of_same rfl rfl rfl rfl
    -- The filters that are given up are cancelled one after the other.
    have hall (records : List SubscriptionRecord) (g' : Gateway σ) :
        Still g' (records.foldl (fun g r => g.unsubscribeFrom r.filter) g') := by
      induction records generalizing g' with
      | nil => exact .refl g'
      | cons r records ih => exact (still_unsubscribeFrom law ..).trans (ih _)
    rw [Event.apply, unregisterSubscriber]
    dsimp only
    split
    · exact hremove.trans (hall ..)
    · exact hremove
  | arrive topic bytes qos retained => exact still_arrive ..
  | acknowledge id topic ack => exact still_acknowledge ..
  | _ =>
    rw [inert_apply rfl g]
    exact .of_same rfl rfl rfl rfl

omit law in
/-- The gateway is told of a change of the link when that takes place. -/
theorem hear_eq {g : Gateway σ} (hs : g.Ordered) {caller : Caller}
    (hdone : g.isDone caller = true) (c : Callback) (transport : σ) :
    ∃ g₀ : Gateway σ, g₀.Ordered ∧ g₀.isConnected = Transport.isConnected transport ∧
      g.hear caller c transport = g₀.run (.call caller) (callbackSteps c) nothing := by
  let told : Gateway σ := (({ g with transport }.hold (.call caller) (.begins (.callback c))).wake
    [.call caller])
  have hactivity (other : Strand) : told.activity other =
      if other = .call caller then some (.begins (.callback c)) else g.activity other :=
    activity_hold ..
  refine ⟨told.drop (.call caller), ordered_drop (fun other a hne ha => ?_) hs.jobs, rfl, ?_⟩
  · rw [hactivity, if_neg hne] at ha
    exact hs.activity other a ha
  · have hask : ({ g with transport } : Gateway σ).isDone caller = true := hdone
    have hafter : g.hear caller c transport = told.turn (.call caller) := by
      rw [hear, if_pos hdone, after_cons, after_cons, after_cons, after_nil, Event.apply, Event.apply,
        Event.apply, if_pos hask]
    have halive : told.isAlive (.call caller) = true := rfl
    have hturn := turn_eq halive
    rw [hactivity, if_pos rfl] at hturn
    rw [hafter, hturn]
    rfl

/-- **What an occurrence does to state and link.** -/
theorem moves_apply {g : Gateway σ} (hs : g.Ordered) (o : Occurrence σ) :
    (o.apply g).Ordered ∧ Moves (o.strays g) (o.opens g) g (o.apply g) := by
  -- Who is not done is told nothing.
  have hbusy {caller : Caller} (hdone : ¬g.isDone caller = true) (c : Callback) (transport : σ) :
      g.hear caller c transport = g := by rw [hear, if_neg hdone]
  cases o with
  | own e hown =>
    by_cases hturn : ∃ strand, e = .turn strand
    · obtain ⟨strand, rfl⟩ := hturn
      exact moves_turn law hs strand
    · have hturn' : ∀ strand, e ≠ .turn strand := fun strand h => hturn ⟨strand, h⟩
      have hstill : Still g (e.apply g) := still_apply law hown hturn'
      refine ⟨hstill.ordered hs, .still hstill ?_ ?_ ?_⟩
      · rintro ⟨caller, hold, rest, ha⟩
        exact ⟨caller, hold, rest, activity_apply ha (hturn' _)⟩
      · cases e <;> first | rfl | exact absurd rfl (hturn' _)
      · cases e <;> first | rfl | exact absurd rfl (hturn' _)
  | comesUp caller transport hup =>
    show (g.hear caller .established transport).Ordered ∧
      Moves false (g.isDone caller) g (g.hear caller .established transport)
    by_cases hdone : g.isDone caller = true
    · obtain ⟨g₀, hs₀, hlink, hhear⟩ := hear_eq hs hdone .established transport
      have hrun := run_established law (.call caller) [.tell .established]
        (by simp [Step.isStill]) nothing g₀
      rw [hhear]
      exact ⟨hrun.ordered (hs₀.of_same rfl rfl),
        .opens hrun.state (hrun.link.trans (hlink.trans hup)) rfl hdone⟩
    · rw [hbusy hdone]
      exact ⟨hs, .still (.refl g) id rfl (Bool.eq_false_iff.2 hdone)⟩
  | isLost caller transport hdown =>
    show (g.hear caller .lost transport).Ordered ∧
      Moves false false g (g.hear caller .lost transport)
    by_cases hdone : g.isDone caller = true
    · obtain ⟨g₀, hs₀, hlink, hhear⟩ := hear_eq hs hdone .lost transport
      have htell : ∀ s ∈ [Step.tell .lost], s.isStill := by simp [Step.isStill]
      have hrun : Still { g₀ with state := .disconnected }
          (g₀.run (.call caller) (callbackSteps .lost) nothing) :=
        still_run law (.call caller) htell nothing { g₀ with state := .disconnected }
      rw [hhear]
      refine ⟨hrun.ordered (hs₀.of_same rfl rfl),
        .closes ?_ (hrun.link.trans (hlink.trans hdown)) rfl⟩
      simp [hrun.state]
    · rw [hbusy hdone]
      exact ⟨hs, .still (.refl g) id rfl rfl⟩

/-! ## 3. When state and link agree -/

omit law in
/-- What holds of a gateway that is watched, at all times. -/
structure Watch.Stands (w : Watch σ) : Prop where
  ordered : w.gateway.Ordered
  connected : w.gateway.state = .connected → w.gateway.isConnected = true
  up : w.gateway.isConnected = true →
    w.gateway.state = .connected ∨ w.astray = true ∨ w.gateway.IsClosingDown
  astray : w.astray = true → w.gateway.isConnected = true ∧ w.gateway.state ≠ .connected

theorem Watch.Stands.after {w : Watch σ} (h : w.Stands) (o : Occurrence σ) :
    (w.after o).Stands := by
  obtain ⟨hordered, hmoves⟩ := moves_apply law h.ordered o
  have hastray : (w.after o).astray = (o.strays w.gateway ||
      w.astray && !o.opens w.gateway && (o.apply w.gateway).isConnected) := rfl
  cases hmoves with
  | still hstill hclosing hstrays hopens =>
    -- Nothing changes, so whether the gateway is astray does not either.
    have hsame : (w.after o).astray = w.astray := by
      rw [hastray, hstrays, hopens, hstill.link]
      cases hw : w.astray with
      | false => rfl
      | true => rw [(h.astray hw).1]; rfl
    refine ⟨hordered, fun hstate => ?_, fun hlink => ?_, fun hw => ?_⟩
    · exact hstill.link.trans (h.connected (hstill.state ▸ hstate))
    · rw [hsame]
      show (o.apply w.gateway).state = _ ∨ _ ∨ _
      rw [hstill.state]
      exact (h.up (hstill.link ▸ hlink)).imp_right (·.imp_right hclosing)
    · obtain ⟨hlink, hstate⟩ := h.astray (hsame ▸ hw)
      exact ⟨hstill.link.trans hlink, hstill.state ▸ hstate⟩
  | opens hstate hlink hstrays hopens =>
    have hnone : (w.after o).astray = false := by
      rw [hastray, hstrays, hopens, Bool.not_true, Bool.and_false]
      rfl
    exact ⟨hordered, fun _ => hlink, fun _ => .inl hstate, fun hw => by rw [hnone] at hw; cases hw⟩
  | closes hstate hlink hstrays =>
    have hnone : (w.after o).astray = false := by
      rw [hastray, hstrays, hlink, Bool.and_false]
      rfl
    refine ⟨hordered, fun h => absurd h hstate, fun h => ?_, fun hw => ?_⟩
    · cases h.symm.trans hlink
    · rw [hnone] at hw
      cases hw
  | leaves hstate hclosing hstrays =>
    -- The link may be up still, but somebody is about to close the transport.
    refine ⟨hordered, fun h => absurd h hstate, fun _ => .inr (.inr hclosing), fun hw => ?_⟩
    rw [hastray, hstrays, Bool.false_or, Bool.and_eq_true] at hw
    exact ⟨hw.2, hstate⟩
  | strays hstate hlink hstrays =>
    have hnew : (w.after o).astray = true := by rw [hastray, hstrays, Bool.true_or]
    exact ⟨hordered, fun h => absurd h hstate, fun _ => .inr (.inl hnew), fun _ => ⟨hlink, hstate⟩⟩

theorem Watch.Stands.foldl {w : Watch σ} (h : w.Stands) (occurrences : List (Occurrence σ)) :
    (occurrences.foldl Watch.after w).Stands := by
  induction occurrences generalizing w with
  | nil => exact h
  | cons o occurrences ih => exact ih (h.after law o)

end Faithful

omit [Transport σ] in
theorem IsNew.ordered {g : Gateway σ} (h : g.IsNew) : g.Ordered := by
  refine ⟨fun strand a ha => ?_, ?_, ?_⟩
  · rw [activity, h.activities] at ha
    cases ha
  · simp [h.queue]
  · simp [h.active]

omit [Transport σ] in
theorem transport_of_create {options : Options} {transport : σ} {device : Device} {clock : Clock}
    {verifier : Option (Topic → Payload → Bool)} {g : Gateway σ}
    (h : create options transport device clock verifier = .ok g) : g.transport = transport := by
  unfold create at h
  split at h
  · cases h
  · cases h
    rfl

/-- **When nothing is under way, a gateway is connected exactly if its link is up, unless it was told
to connect although the link was up.** -/
theorem state_agrees_iff_not_astray (law : Transport.IsFaithful σ) {options : Options} {transport : σ}
    {device : Device} {clock : Clock} {verifier : Option (Topic → Payload → Bool)} {g : Gateway σ}
    (hcreate : create options transport device clock verifier = .ok g)
    (hdown : Transport.isConnected transport = false) (occurrences : List (Occurrence σ))
    (hdone : ∀ caller, (Watch.ofOccurrences g occurrences).gateway.isDone caller = true) :
    let w := Watch.ofOccurrences g occurrences
    (w.gateway.state = .connected ↔ w.gateway.isConnected = true) ↔ w.astray = false := by
  intro w
  have hnew := isNew_of_create hcreate
  have hlink : g.isConnected = false := by rw [isConnected, transport_of_create hcreate, hdown]
  have hstart : Watch.Stands ({ gateway := g } : Watch σ) := by
    refine ⟨hnew.ordered, fun h => ?_, fun h => ?_, fun h => ?_⟩
    · cases hnew.state.symm.trans h
    · cases h.symm.trans hlink
    · cases h
  have h : w.Stands := hstart.foldl law occurrences
  -- Nobody is about to close the transport.
  have hidle : ¬w.gateway.IsClosingDown := by
    rintro ⟨caller, hold, rest, ha⟩
    have hcaller := hdone caller
    rw [isDone, Option.isNone_iff_eq_none] at hcaller
    rw [activity] at ha
    cases hcaller.symm.trans ha
  cases hw : w.astray with
  | false =>
    refine iff_of_true ⟨h.connected, fun hup => ?_⟩ rfl
    exact (h.up hup).resolve_right fun hor => hor.elim (fun h => by rw [hw] at h; cases h) hidle
  | true =>
    obtain ⟨hup, hstate⟩ := h.astray hw
    exact iff_of_false (fun hiff => hstate (hiff.2 hup)) Bool.noConfusion

/-- A gateway on a loopback transport that cannot connect by itself, as it is made. -/
def outage : Gateway Loopback :=
  { loopback with transport := { failsConnect := true, failsPublish := true } }

theorem create_outage :
    create {} { failsConnect := true, failsPublish := true : Loopback } {} .epoch none =
      .ok outage :=
  rfl

/-- The link comes up by itself, and then the gateway is told to connect, which fails. -/
def connectingInVain : List (Occurrence Loopback) :=
  [.comesUp (some "link") { connected := true, failsConnect := true, failsPublish := true } rfl,
    .own (.ask none .connect) rfl, .own (.turn (.call none)) rfl]

theorem isDone_of_isEmpty {σ : Type} {g : Gateway σ} (h : g.activities.isEmpty = true)
    (caller : Caller) : g.isDone caller = true := by
  rw [isDone, List.isEmpty_iff.1 h]
  rfl

/-- State and link disagree after that. -/
theorem not_state_agrees_when_connecting_in_vain :
    create {} { failsConnect := true, failsPublish := true : Loopback } {} .epoch none =
        .ok outage ∧
      Transport.isConnected ({ failsConnect := true, failsPublish := true } : Loopback) = false ∧
      (∀ caller, (Watch.ofOccurrences outage connectingInVain).gateway.isDone caller = true) ∧
      ¬((Watch.ofOccurrences outage connectingInVain).gateway.state = .connected ↔
        (Watch.ofOccurrences outage connectingInVain).gateway.isConnected = true) := by
  refine ⟨create_outage, rfl, isDone_of_isEmpty (by decide +kernel), by decide +kernel⟩

/-- They agree again when the link has been lost and come back. -/
theorem state_agrees_when_link_comes_back :
    (Transport.IsFaithful Loopback ∧
      create {} { failsConnect := true, failsPublish := true : Loopback } {} .epoch none =
        .ok outage ∧
      Transport.isConnected ({ failsConnect := true, failsPublish := true } : Loopback) = false) ∧
    let occurrences := connectingInVain ++
      [.isLost (some "link") { failsConnect := true, failsPublish := true } rfl,
        .comesUp (some "link") { connected := true, failsConnect := true } rfl,
        .own (.turn (.acknowledgement 0)) rfl, .own (.turn (.call (some "link"))) rfl]
    let w := Watch.ofOccurrences outage occurrences
    (∀ caller, w.gateway.isDone caller = true) ∧
      (w.gateway.state = .connected ↔ w.gateway.isConnected = true) := by
  refine ⟨⟨Loopback.isFaithful, create_outage, rfl⟩, ?_⟩
  intro occurrences w
  have hdone : ∀ caller, w.gateway.isDone caller = true := isDone_of_isEmpty (by decide +kernel)
  exact ⟨hdone, (state_agrees_iff_not_astray Loopback.isFaithful create_outage rfl occurrences
    hdone).2 (by decide +kernel)⟩

end Uplink.Gateway
