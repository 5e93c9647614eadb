import Mathlib.Data.List.Nodup
import Uplink.Proofs.Agenda
import Uplink.Proofs.Gateway.Course

/-!
# Turns on the way

The turns of a gateway that announces itself may come in any order. An echo that comes in wakes the
activity that waits for it, a window that is over hands over what was kept, and nobody else has
anything to do. Each turn, and each alarm while nobody is ready, leaves less to do, and leaves the
outlook that was foreseen.
-/

namespace Uplink.Gateway

variable {σ : Type} [Transport σ]

/-! ## 1. Echoes -/

/-- What acknowledgements make of a tracker. -/
def heard (steps : List Step) (t : Delivery.Tracker) : Delivery.Tracker :=
  steps.foldl (fun t step => match step with
    | .acknowledge id _ ack => (t.resolve id ack).2
    | _ => t) t

omit [Transport σ] in
theorem awaits_congr {t t' : Delivery.Tracker} (h : t'.slot = t.slot) (ticket : Delivery.Ticket) :
    t'.awaits ticket = t.awaits ticket := by
  rw [Delivery.Tracker.awaits, Delivery.Tracker.awaits, h]

omit [Transport σ] in
theorem slot_resolve {t : Delivery.Tracker} {id : Nat} {ack : Delivery.Acknowledgement}
    {ticket : Delivery.Ticket} (h : (t.resolve id ack).2.awaits ticket = true) :
    (t.resolve id ack).2.slot = t.slot := by
  unfold Delivery.Tracker.resolve at h ⊢
  split
  · next hslot =>
    rw [hslot] at h
    dsimp only at h
    split at h
    · cases h
    · next hnot => rw [if_neg hnot]
  · next hslot =>
    rw [hslot] at h
    cases h
  · rfl

omit [Transport σ] in
theorem slot_heard {steps : List Step} {t : Delivery.Tracker} {ticket : Delivery.Ticket}
    (h : (heard steps t).awaits ticket = true) : (heard steps t).slot = t.slot := by
  induction steps generalizing t with
  | nil => rfl
  | cons step steps ih =>
    cases step with
    | acknowledge id topic ack =>
      have hrest : (heard steps (t.resolve id ack).2).slot = (t.resolve id ack).2.slot := ih h
      have hawaits : (t.resolve id ack).2.awaits ticket = true :=
        (awaits_congr hrest ticket).symm.trans h
      exact hrest.trans (slot_resolve hawaits)
    | _ => exact ih h

omit [Transport σ] in
/-- The acknowledgements of a message end the wait for it. -/
theorem awaits_heard_acknowledgements {t : Delivery.Tracker} {ticket : Delivery.Ticket} {id : Nat}
    {message : Outbound} (h : t.slot = .awaiting ticket message.qos id) :
    (heard (acknowledgements id message) t).awaits ticket = false := by
  cases hqos : message.qos <;>
    simp [heard, acknowledgements, Delivery.Tracker.resolve, Delivery.Tracker.settleFor,
      Delivery.Tracker.awaits, Delivery.Acknowledgement.clears, h, hqos]

omit [Transport σ] in
theorem mem_waiting {g : Gateway σ} {what : Hold → Bool} {k : Strand} :
    k ∈ g.waiting what ↔ ∃ hold rest, (k, .waits hold rest) ∈ g.activities ∧ what hold = true := by
  rw [waiting, List.mem_filterMap]
  constructor
  · rintro ⟨⟨strand, a⟩, hmem, hsome⟩
    cases a with
    | begins | steps => cases hsome
    | waits hold rest =>
      dsimp only at hsome
      split at hsome
      · next hwhat =>
        cases hsome
        exact ⟨hold, rest, hmem, hwhat⟩
      · cases hsome
  · rintro ⟨hold, rest, hmem, hwhat⟩
    exact ⟨_, hmem, if_pos hwhat⟩

/-- Who is woken when the tracker changes. -/
def freed (tracker : Delivery.Tracker) (g : Gateway σ) : List Strand :=
  g.waiting fun
    | .delivery ticket _ _ => g.tracker.awaits ticket && !tracker.awaits ticket
    | _ => false

omit [Transport σ] in
theorem track_eq (tracker : Delivery.Tracker) (g : Gateway σ) :
    g.track tracker = { g with tracker, agenda := g.agenda.wakeAll (g.freed tracker) } :=
  rfl

omit [Transport σ] in
theorem mem_freed {tracker : Delivery.Tracker} {g : Gateway σ} {k : Strand} :
    k ∈ g.freed tracker ↔ ∃ ticket id deadline rest,
      (k, .waits (.delivery ticket id deadline) rest) ∈ g.activities ∧
        g.tracker.awaits ticket = true ∧ tracker.awaits ticket = false := by
  rw [freed, mem_waiting]
  constructor
  · rintro ⟨hold, rest, hmem, hwhat⟩
    cases hold with
    | moment | poolEnd => cases hwhat
    | delivery ticket id deadline =>
      rw [Bool.and_eq_true, Bool.not_eq_true'] at hwhat
      exact ⟨ticket, id, deadline, rest, hmem, hwhat⟩
  · rintro ⟨ticket, id, deadline, rest, hmem, hwhat⟩
    exact ⟨_, rest, hmem, by rw [Bool.and_eq_true, Bool.not_eq_true']; exact hwhat⟩

/-- Who waits is the sender. -/
def WaitsOnly (g : Gateway σ) (sender : Option Sender) : Prop :=
  ∀ e ∈ g.activities, ∀ hold rest, e.2 = .waits hold rest → ∃ s ∈ sender, e = s.entry

/-- Acknowledgements came in, and the sender was woken if it waited for them. -/
structure Hears (steps : List Step) (sender : Option Sender) (g g' : Gateway σ) : Prop where
  same : g' = { g with
    tracker := heard steps g.tracker, notes := g'.notes
    agenda := { g.agenda with ready := g'.agenda.ready } }
  handed : g'.handed = g.handed
  ready : ∀ k ∈ g.agenda.ready, k ∈ g'.agenda.ready
  length : g'.agenda.ready.length ≤ g.agenda.ready.length + steps.length
  woken : ∀ s ∈ sender, s.entry ∈ g.activities → g.tracker.awaits s.ticket = true →
    g'.tracker.awaits s.ticket = false → s.strand ∈ g'.agenda.ready

omit [Transport σ] in
theorem hears_acknowledge {g : Gateway σ} {sender : Option Sender} (hwaits : g.WaitsOnly sender)
    (id : Nat) (topic : String) (ack : Delivery.Acknowledgement) :
    Hears [.acknowledge id topic ack] sender g (g.acknowledge id topic ack) := by
  let tracker := (g.tracker.resolve id ack).2
  let freed := g.freed tracker
  let told := (g.deliveryListeners.members.filter fun l => !l.isQuiet || ack == .confirmed).map
    fun l => Note.delivery l.name ack id topic
  have heq : g.acknowledge id topic ack =
      { g with tracker, notes := g.notes ++ told, agenda := g.agenda.wakeAll freed } := by
    rw [acknowledge, tellDelivery, foldl_note fun l : Listener => Note.delivery l.name ack id topic]
    rfl
  -- Nobody but the sender waits for an acknowledgement, so at most one strand is woken.
  have hsender (k : Strand) (hk : k ∈ freed) : ∃ s ∈ sender, k = s.strand := by
    obtain ⟨_, _, _, _, hmem, -⟩ := mem_freed.1 hk
    obtain ⟨s, hs, hentry⟩ := hwaits _ hmem _ _ rfl
    exact ⟨s, hs, congrArg Prod.fst hentry⟩
  have hlength : (g.agenda.wakeAll freed).ready.length ≤ g.agenda.ready.length + 1 := by
    cases sender with
    | none =>
      have hnone : freed = [] := List.eq_nil_iff_forall_not_mem.2 fun k hk => by
        obtain ⟨s, hs, -⟩ := hsender k hk
        cases hs
      rw [hnone]
      exact Nat.le_succ _
    | some s =>
      refine Agenda.length_ready_wakeAll_le_one (k := s.strand) (fun k hk => ?_) _
      obtain ⟨_, ⟨⟩, rfl⟩ := hsender k hk
      rfl
  have htold : told.filterMap Note.handed? = [] := by
    rw [List.filterMap_eq_nil_iff]
    intro n hn
    obtain ⟨l, -, rfl⟩ := List.mem_map.1 hn
    rfl
  rw [heq]
  refine ⟨?_, ?_, fun k hk => Agenda.mem_ready_wakeAll.2 (.inl hk), hlength, ?_⟩
  · rw [Agenda.wakeAll_eq]
    rfl
  · show (g.notes ++ told).filterMap Note.handed? = _
    rw [List.filterMap_append, htold, List.append_nil, Gateway.handed]
  · intro s _ hentry hbefore hafter
    exact Agenda.mem_ready_wakeAll.2 (.inr (mem_freed.2 ⟨_, _, _, _, hentry, hbefore, hafter⟩))

omit [Transport σ] in
theorem Hears.trans {steps more : List Step} {sender : Option Sender} {g g' g'' : Gateway σ}
    (h : Hears steps sender g g') (h' : Hears more sender g' g'') :
    Hears (steps ++ more) sender g g'' := by
  have hactivities : g'.activities = g.activities := by rw [h.same]
  have htracker : g'.tracker = heard steps g.tracker := by rw [h.same]
  refine ⟨?_, h'.handed.trans h.handed, fun k hk => h'.ready k (h.ready k hk), ?_, ?_⟩
  · rw [heard, List.foldl_append]
    have h'same := h'.same
    rw [h.same] at h'same
    exact h'same
  · have hlength := h.length
    have hlength' := h'.length
    rw [List.length_append]
    omega
  · intro s hs hentry hbefore hafter
    cases hbetween : g'.tracker.awaits s.ticket with
    | true => exact h'.woken s hs (hactivities ▸ hentry) hbetween hafter
    | false => exact h'.ready _ (h.woken s hs hentry hbefore hbetween)

omit [Transport σ] in
theorem Hears.waitsOnly {steps : List Step} {sender : Option Sender} {g g' : Gateway σ}
    (h : Hears steps sender g g') (hwaits : g.WaitsOnly sender) : g'.WaitsOnly sender := by
  have hactivities : g'.activities = g.activities := by rw [h.same]
  intro e he
  exact hwaits e (hactivities ▸ he)

theorem hears_run {g : Gateway σ} {sender : Option Sender} (hwaits : g.WaitsOnly sender)
    (strand : Strand) (id : Nat) (message : Outbound) :
    ∃ g' result, g.run strand (acknowledgements id message) nothing = g'.finish strand result ∧
      Hears (acknowledgements id message) sender g g' := by
  have hfirst := hears_acknowledge hwaits id message.topic .published
  by_cases hqos : message.qos = .atMostOnce
  · rw [acknowledgements, if_pos hqos]
    exact ⟨_, _, rfl, hfirst⟩
  · rw [acknowledgements, if_neg hqos]
    exact ⟨_, _, rfl,
      hfirst.trans (hears_acknowledge (hfirst.waitsOnly hwaits) id message.topic .confirmed)⟩

/-! ## 2. Turns -/

omit [Transport σ] in
theorem Sends.strand_ne {due : Strand → Prop} {g : Gateway σ} {s : Sender} (h : Sends due g s)
    {k : Strand} (hk : k.mayHand = false) : s.strand ≠ k := by
  rintro rfl
  have hmay := h.mayHand
  rw [hk] at hmay
  cases hmay

omit [Transport σ] in
theorem OnWay.eq_of_mem {good : σ → Prop} {due : Strand → Prop} {g : Gateway σ}
    {sender : Option Sender} (h : OnWay good due g sender) {k : Strand} {a b : Activity}
    (ha : (k, a) ∈ g.activities) (hb : (k, b) ∈ g.activities) : a = b := by
  have hentry := List.inj_on_of_nodup_map h.keys ha hb rfl
  exact congrArg Prod.snd hentry

omit [Transport σ] in
theorem OnWay.waitsOnly {good : σ → Prop} {due : Strand → Prop} {g : Gateway σ}
    {sender : Option Sender} (h : OnWay good due g sender) : g.WaitsOnly sender := by
  rintro ⟨k, a⟩ he hold rest rfl
  obtain ⟨⟨number, -, id, message, heq⟩, -⟩ | hs := h.entries _ he
  · cases heq
  · exact hs

omit [Transport σ] in
theorem length_acknowledgements_le (id : Nat) (message : Outbound) :
    (acknowledgements id message).length ≤ 2 := by
  rw [acknowledgements]
  split <;> simp

omit [Transport σ] in
/-- When an echo has come in, the sender is ready if it waited for this one, and goes on waiting for
its own if it did not. -/
theorem OnWay.heard {good : σ → Prop} {g : Gateway σ} {sender : Option Sender} {number : Nat}
    (h : OnWay good (fun x => x = .acknowledgement number ∨ x ∈ g.agenda.ready) g sender)
    {id : Nat} {message : Outbound}
    (hmem : (.acknowledgement number, .steps (acknowledgements id message)) ∈ g.activities)
    (notes : List Note) {ready : List Strand} (hready : ∀ k ∈ g.agenda.ready, k ∈ ready)
    (hwoken : ∀ s ∈ sender, g.tracker.awaits s.ticket = true →
      (heard (acknowledgements id message) g.tracker).awaits s.ticket = false → s.strand ∈ ready) :
    Going good { g with
      tracker := Gateway.heard (acknowledgements id message) g.tracker, notes
      activities := g.activities.filter (·.1 != .acknowledgement number)
      agenda := { g.agenda.silence (.acknowledgement number) with ready } } sender := by
  let k := Strand.acknowledgement number
  have hdue {x : Strand} (hx : x = k ∨ x ∈ g.agenda.ready) (hne : x ≠ k) : x ∈ ready :=
    hready x (hx.resolve_left hne)
  refine ⟨h.running, h.good, h.pool, h.keys.sublist (List.filter_sublist.map _), fun e he => ?_,
    fun s hs => ?_, fun w hw => ?_, fun e he => h.alarms e (List.mem_filter.1 he).1⟩
  · obtain ⟨he, hne⟩ := List.mem_filter.1 he
    exact (h.entries e he).imp_left (And.imp_right fun hd => hdue hd (bne_iff_ne.1 hne))
  · have hsends := h.sends s hs
    have hne : s.strand ≠ k := hsends.strand_ne rfl
    refine ⟨List.mem_filter.2 ⟨hsends.present, bne_iff_ne.2 hne⟩, hsends.mayHand, hsends.rest,
      hsends.window, fun hafter => ?_, fun hafter => ?_⟩
    · cases hbefore : g.tracker.awaits s.ticket with
      | true => exact hwoken s hs hbefore hafter
      | false => exact hdue (hsends.freed hbefore) hne
    · have hslot : (Gateway.heard (acknowledgements id message) g.tracker).slot = g.tracker.slot :=
        slot_heard hafter
      have hbefore : g.tracker.awaits s.ticket = true :=
        (awaits_congr hslot s.ticket).symm.trans hafter
      obtain ⟨qos, hqos, number', message', hmem', rfl⟩ := hsends.echoes hbefore
      refine ⟨message'.qos, hslot.trans hqos, number', message', ?_, rfl⟩
      refine List.mem_filter.2 ⟨hmem', bne_iff_ne.2 fun heq => ?_⟩
      -- The echo that is waited for would have ended the wait.
      obtain rfl : number' = number := Strand.acknowledgement.inj heq
      have hsteps := Activity.steps.inj (h.eq_of_mem hmem' hmem)
      have hended := awaits_heard_acknowledgements hqos
      rw [hsteps] at hended
      rw [show (Gateway.heard _ g.tracker).awaits s.ticket = true from hafter] at hended
      cases hended
  · rcases h.rings w hw with ⟨time, hclose, halarm⟩ | ⟨hd, hpast⟩
    · exact .inl ⟨time, hclose, List.mem_filter.2 ⟨halarm, rfl⟩⟩
    · exact .inr ⟨hdue hd nofun, hpast⟩

theorem heads_echo {good : σ → Prop} {since limit : Nat} {g : Gateway σ} {sender : Option Sender}
    {number : Nat}
    (h : OnWay good (fun x => x = .acknowledgement number ∨ x ∈ g.agenda.ready) g sender)
    (hnow : since ≤ g.agenda.now ∧ g.agenda.now ≤ limit) {id : Nat} {message : Outbound}
    (hmem : (.acknowledgement number, .steps (acknowledgements id message)) ∈ g.activities) :
    Heads good (g.aim since limit (todo sender)) (g.effort (todo sender))
      ((g.drop (.acknowledgement number)).run (.acknowledgement number)
        (acknowledgements id message) nothing) sender := by
  let k := Strand.acknowledgement number
  have hwaits : (g.drop k).WaitsOnly sender := fun e he => h.waitsOnly e (List.mem_filter.1 he).1
  obtain ⟨g', result, hrun, hsame, hhanded, hready, hlength, hwoken⟩ := hears_run hwaits k id message
  have hgone : g'.finish k result = { g with
      tracker := heard (acknowledgements id message) g.tracker, notes := g'.notes
      activities := g.activities.filter (·.1 != k)
      agenda := { g.agenda.silence k with ready := g'.agenda.ready } } := by
    show g'.drop k = _
    rw [hsame]
    simp [drop, Agenda.silence, List.filter_filter]
  -- The acknowledgement is heard, and wakes the sender if it frees it.
  have hgoing := h.heard hmem g'.notes hready fun s hs hbefore hafter => by
    have hsends := h.sends s hs
    have hne : s.strand ≠ k := hsends.strand_ne rfl
    refine hwoken s hs (List.mem_filter.2 ⟨hsends.present, bne_iff_ne.2 hne⟩) hbefore ?_
    rw [hsame]
    exact hafter
  rw [hrun, hgone]
  refine ⟨hgoing, hnow, rfl, ?_, ?_⟩
  · show forecast _ (todo sender) limit = g.forecast (todo sender) limit
    rw [forecast, forecast]
    exact congrArg (fun o => (Outlook.foreseeAll g.setting _ o).lapse g.setting limit)
      (Outlook.ext hhanded rfl rfl rfl)
  · -- The strand that is gone outweighs the one that it may have woken.
    have hactivities : (g.activities.filter (·.1 != k)).length < g.activities.length :=
      List.length_filter_lt_length_iff_exists.2 ⟨_, hmem, by simp [k]⟩
    have halarms : (g.agenda.silence k).alarms.length ≤ g.agenda.alarms.length :=
      List.length_filter_le ..
    have hsteps := length_acknowledgements_le id message
    change g'.agenda.ready.length ≤ g.agenda.ready.length + _ at hlength
    show 3 * (g.activities.filter (·.1 != k)).length + 2 * (g.agenda.silence k).alarms.length +
      g'.agenda.ready.length + windowEffort g.debouncer + 10 * _ ≤ _
    rw [effort, weight]
    omega

omit [Transport σ] in
/-- Who learns nothing from its look is awaited, and leaves the tracker as it is. -/
theorem awaits_of_poll {t t' : Delivery.Tracker} {ticket : Delivery.Ticket} {deadline now : Nat}
    (h : t.poll ticket deadline now = (none, t')) : t.awaits ticket = true ∧ t' = t := by
  rw [Delivery.Tracker.poll, Delivery.Tracker.verdict?] at h
  cases hawaits : t.awaits ticket with
  | false =>
    rw [hawaits] at h
    cases h
  | true =>
    rw [hawaits, if_pos rfl] at h
    dsimp only at h
    split at h
    · cases h
    · exact ⟨rfl, (congrArg Prod.snd h).symm⟩

omit [Transport σ] in
theorem track_self (g : Gateway σ) : g.track g.tracker = g := by
  have hnobody : g.freed g.tracker = [] := by
    refine List.eq_nil_iff_forall_not_mem.2 fun k hk => ?_
    obtain ⟨ticket, _, _, _, -, hbefore, hafter⟩ := mem_freed.1 hk
    rw [hbefore] at hafter
    cases hafter
  rw [track_eq, hnobody]
  rfl

/-- A sender that is still awaited goes on waiting: its echo is still to come. -/
theorem heads_awaiting {good : σ → Prop} {since limit : Nat} {g : Gateway σ} {s : Sender}
    (h : OnWay good (fun x => x = s.strand ∨ x ∈ g.agenda.ready) g (some s))
    (hnow : since ≤ g.agenda.now ∧ g.agenda.now ≤ limit)
    (hawaits : g.tracker.awaits s.ticket = true) :
    Heads good (g.aim since limit s.rest) (g.effort s.rest) g (some s) := by
  have hsends := h.sends s rfl
  refine ⟨⟨h.running, h.good, h.pool, h.keys, fun e he => ?_, fun s' hs' => ?_, fun w hw => ?_,
    h.alarms⟩, hnow, rfl, rfl, Nat.le_refl _⟩
  · obtain ⟨hecho, hd⟩ | hs := h.entries e he
    · refine .inl ⟨hecho, hd.resolve_left fun heq => ?_⟩
      obtain ⟨number, -, id, message, rfl⟩ := hecho
      exact hsends.strand_ne rfl heq.symm
    · exact .inr hs
  · cases hs'
    refine { hsends with freed := fun hfreed => ?_ }
    rw [hawaits] at hfreed
    cases hfreed
  · exact absurd (hw.symm.trans hsends.window) (Option.some_ne_none w)

/-- A sender that knows what became of its message goes on, whatever it was. -/
theorem heads_informed {good : σ → Prop} (hprompt : IsPrompt good) {since limit : Nat}
    {g : Gateway σ} {s : Sender}
    (h : OnWay good (fun x => x = s.strand ∨ x ∈ g.agenda.ready) g (some s))
    (hnow : since ≤ g.agenda.now ∧ g.agenda.now ≤ limit) (tracker : Delivery.Tracker)
    (result : Result) :
    ∃ sender, Heads good (g.aim since limit s.rest) (g.effort s.rest)
      (((g.track tracker).drop s.strand).run s.strand s.rest result) sender := by
  have hsends := h.sends s rfl
  let freed := g.freed tracker
  let g' : Gateway σ := (g.track tracker).drop s.strand
  -- Nobody else waits, so that nobody else is woken.
  have hfreed (k : Strand) (hk : k ∈ freed) : k = s.strand := by
    obtain ⟨_, _, _, _, hmem, -⟩ := mem_freed.1 hk
    obtain ⟨_, ⟨⟩, hentry⟩ := h.waitsOnly _ hmem _ _ rfl
    exact congrArg Prod.fst hentry
  have halarms : (g.agenda.wakeAll freed).alarms = g.agenda.alarms := by rw [Agenda.wakeAll_eq]
  have hnow' : g'.agenda.now = g.agenda.now := by
    show (g.agenda.wakeAll freed).now = _
    rw [Agenda.wakeAll_eq]
  have hgoing : Going good g' none := by
    refine ⟨h.running, h.good, h.pool, h.keys.sublist (List.filter_sublist.map _),
      fun e he => ?_, nobody_sends, fun w hw => ?_, fun e he => ?_⟩
    · obtain ⟨he, hne⟩ := List.mem_filter.1 he
      obtain ⟨hecho, hd⟩ | ⟨_, ⟨⟩, rfl⟩ := h.entries e he
      · exact .inl ⟨hecho,
          Agenda.mem_ready_wakeAll.2 (.inl (hd.resolve_left (bne_iff_ne.1 hne)))⟩
      · exact absurd rfl (bne_iff_ne.1 hne)
    · exact absurd (hw.symm.trans hsends.window) (Option.some_ne_none w)
    · rw [hnow']
      exact h.alarms e (halarms ▸ (List.mem_filter.1 he).1)
  have houtlook : g'.outlook = g.outlook := by
    refine Outlook.ext rfl rfl rfl ?_
    show g.debouncer.window.map _ = g.debouncer.window.map _
    rw [hsends.window]
    rfl
  have heffort : g'.effort s.rest ≤ g.effort s.rest := by
    have hactivities : (g.activities.filter (·.1 != s.strand)).length < g.activities.length :=
      List.length_filter_lt_length_iff_exists.2 ⟨_, hsends.present, by simp [Sender.entry]⟩
    have hlength : ((g.agenda.wakeAll freed).silence s.strand).alarms.length ≤
        g.agenda.alarms.length :=
      halarms ▸ List.length_filter_le ..
    have hready := Agenda.length_ready_wakeAll_le_one hfreed g.agenda
    show 3 * (g.activities.filter (·.1 != s.strand)).length +
      2 * ((g.agenda.wakeAll freed).silence s.strand).alarms.length +
      (g.agenda.wakeAll freed).ready.length + windowEffort g.debouncer + _ ≤ _
    rw [effort, weight]
    omega
  obtain ⟨sender, hheads⟩ := heads_run hprompt hsends.mayHand hsends.rest result hgoing
    (hnow' ▸ hnow) (.inl hsends.window)
  exact ⟨sender, hheads.of_eq (aim_congr houtlook rfl ..) heffort⟩

theorem heads_look {good : σ → Prop} (hprompt : IsPrompt good) {since limit : Nat} {g : Gateway σ}
    {s : Sender} (h : OnWay good (fun x => x = s.strand ∨ x ∈ g.agenda.ready) g (some s))
    (hnow : since ≤ g.agenda.now ∧ g.agenda.now ≤ limit) :
    ∃ sender, Heads good (g.aim since limit s.rest) (g.effort s.rest)
      (g.look s.strand (.delivery s.ticket s.id s.deadline) s.rest) sender := by
  rw [look]
  cases hpoll : g.tracker.poll s.ticket s.deadline g.agenda.now with
  | mk outcome tracker =>
    cases outcome with
    | none =>
      obtain ⟨hawaits, rfl⟩ := awaits_of_poll hpoll
      refine ⟨some s, ?_⟩
      dsimp only
      rw [track_self]
      exact heads_awaiting h hnow hawaits
    | some outcome => exact heads_informed hprompt h hnow tracker _

theorem batch_eq (g : Gateway σ) :
    g.debouncer.batch.map (·.2) = g.outlook.batch := by
  rw [Debouncer.batch, Outlook.batch, List.map_filterMap]
  refine List.filterMap_congr fun kind _ => ?_
  show ((g.debouncer.kept kind).map _).map _ = g.debouncer.kept kind
  cases g.debouncer.kept kind <;> rfl

theorem closesAt_outlook {g : Gateway σ} {w : Window} (hw : g.debouncer.window = some w) :
    g.outlook.closesAt = some (w.closesAt.getD (g.agenda.now + w.length)) := by
  show g.debouncer.window.map _ = _
  rw [hw]
  rfl

/-- A window that is over hands over what was kept. -/
theorem heads_flush {good : σ → Prop} (hprompt : IsPrompt good) {since limit : Nat} {g : Gateway σ}
    {w : Window} (hw : g.debouncer.window = some w)
    (hdue : w.closesAt.getD (g.agenda.now + w.length) ≤ g.agenda.now)
    (h : OnWay good (fun x => x = .window w.generation ∨ x ∈ g.agenda.ready) g none)
    (hnow : since ≤ g.agenda.now ∧ g.agenda.now ≤ limit) :
    ∃ sender, Heads good (g.aim since limit []) (g.effort [])
      (run (.window w.generation) (g.debouncer.batch.map fun e => .flush e.2) nothing
        { g with debouncer := g.debouncer.flushed }) sender := by
  let k := Strand.window w.generation
  let steps := g.debouncer.batch.map fun e => Step.flush e.2
  let g' : Gateway σ := { g with debouncer := g.debouncer.flushed }
  have hsteps : steps = g.outlook.batch.map .flush := by
    rw [← batch_eq, List.map_map]
    rfl
  have hannounces : ∀ step ∈ steps, step.announces ∧ step.hands := by
    intro step hstep
    rw [hsteps] at hstep
    obtain ⟨m, -, rfl⟩ := List.mem_map.1 hstep
    exact ⟨rfl, rfl⟩
  have hgoing : Going good g' none := by
    refine ⟨h.running, h.good, h.pool, h.keys, fun e he => ?_, nobody_sends,
      by simp [g', Debouncer.flushed], h.alarms⟩
    exact (h.entries e he).imp_left
      (And.imp_right fun hd => hd.resolve_left (h.ne_of_mayHand rfl e he))
  -- What is handed over now is what would have been handed over within the limit.
  have haim : g'.aim since limit steps = g.aim since limit [] := by
    refine congrArg (Aim.mk since limit g.setting) ?_
    have houtlook : g'.outlook = g.outlook.clear := rfl
    rw [forecast, forecast, hsteps, houtlook, Outlook.foreseeAll_flush, Outlook.foreseeAll_nil,
      Outlook.lapse_of_not_due, Outlook.lapse, closesAt_outlook hw]
    · rw [Option.any_some, if_pos (decide_eq_true (Nat.le_trans hdue hnow.2))]
      rfl
    · rw [Outlook.handAll_closesAt]
      intro time hclose
      cases hclose
  -- The batch was counted in the effort of the window.
  have heffort : g'.effort steps ≤ g.effort [] := by
    have hcount : steps.countP Step.hands = g.debouncer.batch.length := by
      rw [List.countP_eq_length.2 fun step hstep => (hannounces step hstep).2]
      exact List.length_map _
    show g.weight + 0 + 10 * steps.countP Step.hands ≤ _
    rw [effort, windowEffort, hw, hcount]
    dsimp only
    omega
  have hk : k.mayHand := rfl
  obtain ⟨sender, hheads⟩ := heads_run hprompt hk
    (fun step hstep => (hannounces step hstep).1) nothing hgoing hnow (.inl rfl)
  exact ⟨sender, hheads.of_eq haim heffort⟩

/-- A window that is not over sets an alarm for its end, in place of the one that it has set. -/
theorem heads_linger {good : σ → Prop} {since limit : Nat} {g : Gateway σ} {w : Window}
    (hw : g.debouncer.window = some w) {time : Nat}
    (htime : time = w.closesAt.getD (g.agenda.now + w.length)) (hlater : g.agenda.now < time)
    (h : OnWay good (fun x => x = .window w.generation ∨ x ∈ g.agenda.ready) g none)
    (hnow : since ≤ g.agenda.now ∧ g.agenda.now ≤ limit) :
    Heads good (g.aim since limit []) (g.effort []) { g with
      debouncer := { g.debouncer with window := some { w with closesAt := some time } }
      agenda := (g.agenda.silence (.window w.generation)).alarm time (.window w.generation) }
      none := by
  let k := Strand.window w.generation
  let debouncer : Debouncer Message :=
    { g.debouncer with window := some { w with closesAt := some time } }
  let agenda := (g.agenda.silence k).alarm time k
  have hgoing : Going good { g with debouncer, agenda } none := by
    refine ⟨h.running, h.good, h.pool, h.keys, fun e he => ?_, nobody_sends, fun w' hw' => ?_,
      fun e he => ?_⟩
    · exact (h.entries e he).imp_left
        (And.imp_right fun hd => hd.resolve_left (h.ne_of_mayHand rfl e he))
    · cases hw'
      exact .inl ⟨time, rfl, List.mem_append_right _ (List.mem_singleton.2 rfl)⟩
    · rcases List.mem_append.1 he with he | he
      · exact h.alarms e (List.mem_filter.1 he).1
      · rw [List.mem_singleton] at he
        subst he
        exact hlater
  have hforecast : forecast { g with debouncer, agenda } [] limit = g.forecast [] limit := by
    rw [forecast, forecast]
    refine congrArg (fun o => Outlook.lapse g.setting limit o) (Outlook.ext rfl rfl rfl ?_)
    exact (closesAt_outlook hw ▸ congrArg some htime)
  have heffort : effort { g with debouncer, agenda } [] ≤ g.effort [] := by
    have hbatch : debouncer.batch = g.debouncer.batch := rfl
    have hlength : agenda.alarms.length = (g.agenda.silence k).alarms.length + 1 :=
      List.length_append
    show 3 * g.activities.length + 2 * agenda.alarms.length + g.agenda.ready.length +
      (10 * (debouncer.batch.length + 1) + 0) + 0 ≤ _
    rw [effort, weight, windowEffort, hw, hlength, hbatch]
    dsimp only
    cases hclose : w.closesAt with
    | none =>
      have hsilence : (g.agenda.silence k).alarms.length ≤ g.agenda.alarms.length :=
        List.length_filter_le ..
      rw [Option.isNone_none, if_pos rfl, List.countP_nil]
      omega
    | some t =>
      -- The alarm takes the place of the one that was set before.
      obtain ⟨t', ht', halarm⟩ | ⟨-, hpast⟩ := h.rings w hw
      · have hsilence : (g.agenda.silence k).alarms.length < g.agenda.alarms.length :=
          List.length_filter_lt_length_iff_exists.2 ⟨_, halarm, by simp [k]⟩
        rw [List.countP_nil]
        omega
      · rw [hclose, Option.getD_some] at htime
        exact absurd (htime ▸ hpast t hclose) (Nat.not_le_of_lt hlater)
  exact ⟨hgoing, hnow, rfl, hforecast, heffort⟩

theorem heads_nothing {good : σ → Prop} {since limit : Nat} {g : Gateway σ} {sender : Option Sender}
    {k : Strand} (h : OnWay good (fun x => x = k ∨ x ∈ g.agenda.ready) g sender)
    (hnow : since ≤ g.agenda.now ∧ g.agenda.now ≤ limit) (hentry : ∀ e ∈ g.activities, e.1 ≠ k)
    (hwindow : ∀ w, g.debouncer.window = some w → Strand.window w.generation ≠ k) :
    Heads good (g.aim since limit (todo sender)) (g.effort (todo sender)) g sender :=
  ⟨h.discharge hentry hwindow, hnow, rfl, rfl, Nat.le_refl _⟩

theorem heads_turnOf {good : σ → Prop} (hprompt : IsPrompt good) {since limit : Nat} {g : Gateway σ}
    {sender : Option Sender} {k : Strand}
    (h : OnWay good (fun x => x = k ∨ x ∈ g.agenda.ready) g sender)
    (hnow : since ≤ g.agenda.now ∧ g.agenda.now ≤ limit) (hentry : ∀ e ∈ g.activities, e.1 ≠ k) :
    ∃ sender', Heads good (g.aim since limit (todo sender)) (g.effort (todo sender))
      (g.turnOf k) sender' := by
  cases k with
  | call | acknowledgement => exact ⟨sender, heads_nothing h hnow hentry nofun⟩
  | window generation =>
    -- A sender would have no window beside it.
    have hnobody {w : Window} (hw : g.debouncer.window = some w) : sender = none :=
      Option.eq_none_iff_forall_not_mem.2 fun s hs =>
        absurd (hw.symm.trans (h.sends s hs).window) (Option.some_ne_none w)
    rw [turnOf]
    obtain ⟨hglance, hother⟩ | ⟨w, hw, rfl, ⟨hdue, hglance⟩ | ⟨hlater, hglance⟩⟩ :=
      Debouncer.glance_cases generation g.agenda.now g.debouncer
    · rw [hglance]
      refine ⟨sender, heads_nothing h hnow hentry fun w hw heq => ?_⟩
      exact hother w hw (Strand.window.inj heq)
    · obtain rfl := hnobody hw
      rw [hglance]
      exact heads_flush hprompt hw hdue h hnow
    · obtain rfl := hnobody hw
      rw [hglance]
      exact ⟨none, heads_linger hw rfl hlater h hnow⟩
  | pool strand =>
    have hnothing := heads_nothing h hnow hentry nofun
    cases strand with
    | closer => exact ⟨sender, hnothing⟩
    | job number =>
      have hturn : g.turnOf (.pool (.job number)) = g := by
        rw [turnOf, h.pool.active]
        rfl
      rw [hturn]
      exact ⟨sender, hnothing⟩
    | worker i =>
      obtain ⟨hnobody, hidle, hsize⟩ := h.pool.turn i
      have hturn : g.turnOf (.pool (.worker i)) = { g with pool := (g.pool.turn i).2 } := by
        rw [turnOf, go, hnobody]
        rfl
      rw [hturn]
      refine ⟨sender, ?_⟩
      have hsetting : setting { g with pool := (g.pool.turn i).2 } = g.setting := by
        rw [setting, hsize]
        rfl
      refine ⟨hnothing.going.of_parts rfl h.good hidle rfl rfl (fun _ _ => rfl) rfl rfl rfl, hnow,
        hsetting, ?_, Nat.le_refl _⟩
      rw [forecast, hsetting]
      rfl

theorem heads_turnOfAny {good : σ → Prop} (hprompt : IsPrompt good) {since limit : Nat}
    {g : Gateway σ} {sender : Option Sender} {k : Strand}
    (h : OnWay good (fun x => x = k ∨ x ∈ g.agenda.ready) g sender)
    (hnow : since ≤ g.agenda.now ∧ g.agenda.now ≤ limit) :
    ∃ sender', Heads good (g.aim since limit (todo sender)) (g.effort (todo sender))
      (g.turn k) sender' := by
  by_cases halive : g.isAlive k = true
  · rw [turn_eq halive]
    cases ha : g.activity k with
    | none =>
      refine heads_turnOf hprompt h hnow fun e he heq => ?_
      have := List.lookup_eq_none_iff.1 ha e he
      simp [heq] at this
    | some a =>
      -- The strand is that of an acknowledgement or the sender: there are no others.
      obtain ⟨before, behind, hactivities, -⟩ := List.lookup_eq_some_iff.1 ha
      have hmem : (k, a) ∈ g.activities := by simp [hactivities]
      obtain ⟨⟨number, -, id, message, heq⟩, -⟩ | ⟨s, hs, heq⟩ := h.entries _ hmem
      · cases heq
        exact ⟨sender, heads_echo h hnow hmem⟩
      · cases heq
        cases hs
        exact heads_look hprompt h hnow
  · -- Only jobs die.
    obtain ⟨number, rfl⟩ : ∃ number, k = .pool (.job number) := by
      unfold isAlive at halive
      split at halive
      · next number => exact ⟨number, rfl⟩
      · exact absurd rfl halive
    have hentry : ∀ e ∈ g.activities, e.1 ≠ .pool (.job number) := by
      intro e he
      obtain ⟨⟨_, -, _, _, rfl⟩, -⟩ | ⟨s, hs, rfl⟩ := h.entries e he
      · simp
      · exact (h.sends s hs).strand_ne rfl
    have hturn : g.turn (.pool (.job number)) =
        { g with agenda := g.agenda.silence (.pool (.job number)) } := by
      rw [turn, if_neg halive, drop,
        List.filter_eq_self.2 fun e he => bne_iff_ne.2 (hentry e he)]
    have hother (w : Window) (_ : g.debouncer.window = some w) :
        Strand.window w.generation ≠ .pool (.job number) := Strand.noConfusion
    have hnothing := heads_nothing h hnow hentry hother
    rw [hturn]
    exact ⟨sender, hnothing.going.silence hother, hnow, rfl, rfl, effort_silence_le _ g _⟩

/-- **Whoever has a turn, a gateway goes on to where it heads for, with less effort.** -/
theorem heads_turn {good : σ → Prop} (hprompt : IsPrompt good) {aim : Aim} {effort : Nat}
    {g : Gateway σ} {sender : Option Sender} (h : Heads good aim effort g sender) {k : Strand}
    {agenda : Agenda Strand} (hturn : g.agenda.TurnOf k agenda) :
    ∃ less < effort, ∃ sender', Heads good aim less (turn k { g with agenda }) sender' := by
  have hbegin : OnWay good (fun x => x = k ∨ x ∈ agenda.ready) { g with agenda } sender := by
    refine (h.going.mono fun x hx => ?_).of_parts rfl h.going.good h.going.pool rfl rfl
      (fun _ _ => rfl) rfl hturn.alarms hturn.now
    by_cases hne : x = k
    · exact .inl hne
    · exact .inr (hturn.others x hx hne)
  have hnow : aim.since ≤ agenda.now ∧ agenda.now ≤ aim.limit := hturn.now ▸ h.now
  have houtlook : outlook { g with agenda } = g.outlook := by
    refine Outlook.ext rfl rfl rfl ?_
    show g.debouncer.window.map (fun w => w.closesAt.getD (agenda.now + w.length)) = _
    rw [hturn.now]
    rfl
  have heffort : Gateway.effort { g with agenda } (todo sender) < g.effort (todo sender) := by
    have hlength := hturn.length
    show 3 * g.activities.length + 2 * agenda.alarms.length + agenda.ready.length +
      windowEffort g.debouncer + 10 * _ < _
    rw [Gateway.effort, weight, hturn.alarms]
    omega
  obtain ⟨sender', hheads⟩ := heads_turnOfAny (g := { g with agenda }) hprompt hbegin hnow
  exact ⟨_, Nat.lt_of_lt_of_le heffort h.effort, sender',
    hheads.of_eq ((aim_congr houtlook rfl ..).trans h.aim_eq) (Nat.le_refl _)⟩

/-- When nobody is ready, nobody is at work. -/
theorem Heads.sender_eq_none {good : σ → Prop} {aim : Aim} {effort : Nat} {g : Gateway σ}
    {sender : Option Sender} (h : Heads good aim effort g sender) (hready : g.agenda.ready = []) :
    sender = none := by
  refine Option.eq_none_iff_forall_not_mem.2 fun s hs => ?_
  have hsends := h.going.sends s hs
  cases hawaits : g.tracker.awaits s.ticket with
  | false =>
    have hfreed := hsends.freed hawaits
    rw [hready] at hfreed
    cases hfreed
  | true =>
    obtain ⟨_, -, number, message, hmem, -⟩ := hsends.echoes hawaits
    obtain ⟨-, hd⟩ | ⟨s', hs', heq⟩ := h.going.entries _ hmem
    · rw [hready] at hd
      cases hd
    · exact nomatch congrArg Prod.snd heq

omit [Transport σ] in
/-- A window that is running when nobody is ready has begun, and has its alarm before it. -/
theorem Going.exists_alarm {good : σ → Prop} {g : Gateway σ} {sender : Option Sender}
    (h : Going good g sender) (hready : g.agenda.ready = []) {w : Window}
    (hw : g.debouncer.window = some w) :
    ∃ time, w.closesAt = some time ∧ (time, Strand.window w.generation) ∈ g.agenda.alarms := by
  obtain hring | ⟨hd, -⟩ := h.rings w hw
  · exact hring
  · rw [hready] at hd
    cases hd

omit [Transport σ] in
theorem Going.ring {good : σ → Prop} {g : Gateway σ} (h : Going good g none)
    (hready : g.agenda.ready = []) (time : Nat) :
    Going good { g with agenda := g.agenda.ring time } none := by
  refine ⟨h.running, h.good, h.pool, h.keys, fun e he => ?_, nobody_sends, fun w hw => ?_,
    fun e he => ?_⟩
  · obtain ⟨-, hd⟩ | ⟨s, hs, -⟩ := h.entries e he
    · rw [hready] at hd
      cases hd
    · cases hs
  · -- The alarm of the window is one of those that ring, or a later one.
    obtain ⟨t, hclose, halarm⟩ := h.exists_alarm hready hw
    by_cases hlater : time < t
    · refine .inl ⟨t, hclose, ?_⟩
      show _ ∈ (g.agenda.ring time).alarms
      rw [Agenda.ring_alarms]
      exact List.mem_filter.2 ⟨halarm, decide_eq_true hlater⟩
    · refine .inr ⟨Agenda.mem_ready_ring.2 (.inr ⟨t, Nat.le_of_not_lt hlater, halarm⟩), ?_⟩
      intro t' ht'
      rw [hclose] at ht'
      cases ht'
      show t ≤ (g.agenda.ring time).now
      rw [Agenda.ring_now]
      exact Nat.le_of_not_lt hlater
  · change e ∈ (g.agenda.ring time).alarms at he
    rw [Agenda.ring_alarms] at he
    show (g.agenda.ring time).now < e.1
    rw [Agenda.ring_now]
    exact of_decide_eq_true (List.mem_filter.1 he).2

theorem heads_ring {good : σ → Prop} {aim : Aim} {effort time : Nat} {g : Gateway σ}
    {sender : Option Sender} (h : Heads good aim effort g sender) (hready : g.agenda.ready = [])
    (hnext : g.agenda.nextAlarm? = some time) (htime : time ≤ aim.limit) :
    ∃ less < effort, Heads good aim less { g with agenda := g.agenda.ring time } none := by
  obtain rfl := h.sender_eq_none hready
  -- The window knows when it closes, whatever the time.
  have houtlook : outlook { g with agenda := g.agenda.ring time } = g.outlook := by
    refine Outlook.ext rfl rfl rfl ?_
    show g.debouncer.window.map _ = g.debouncer.window.map _
    cases hw : g.debouncer.window with
    | none => rfl
    | some w =>
      obtain ⟨t, hclose, -⟩ := h.going.exists_alarm hready hw
      rw [Option.map_some, Option.map_some, hclose]
      rfl
  have hpast : g.agenda.now < time := by
    obtain ⟨k, halarm⟩ := Agenda.exists_of_nextAlarm? hnext
    exact h.going.alarms _ halarm
  have hnow : aim.since ≤ (g.agenda.ring time).now ∧ (g.agenda.ring time).now ≤ aim.limit := by
    rw [Agenda.ring_now]
    exact ⟨Nat.le_trans h.now.1 (Nat.le_of_lt hpast), htime⟩
  have heffort : Gateway.effort { g with agenda := g.agenda.ring time } [] < g.effort [] := by
    have hlength := Agenda.length_ring_lt hnext
    show 3 * g.activities.length + 2 * (g.agenda.ring time).alarms.length +
      (g.agenda.ring time).ready.length + windowEffort g.debouncer + 10 * _ < _
    rw [Gateway.effort, weight]
    omega
  refine ⟨_, Nat.lt_of_lt_of_le heffort h.effort, h.going.ring hready time, hnow, h.setting, ?_,
    Nat.le_refl _⟩
  rw [← h.target, forecast, forecast, houtlook]
  rfl

end Uplink.Gateway
