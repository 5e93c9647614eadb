import Uplink.Proofs.Agenda
import Uplink.Proofs.Gateway.Outlook

/-!
# Gateways on their way

While a gateway announces itself, one activity at a time hands certificates over and waits for their
acknowledgements, which are on their way already. Everybody else whose turn comes has little to do.
Whatever the steps are that are taken, the gateway heads for the outlook that was foreseen.
-/

namespace Uplink.Gateway

variable {σ : Type}

/-! ## 1. Invariants -/

/-- An activity that handed a certificate over and waits until it is acknowledged. -/
structure Sender where
  strand : Strand
  ticket : Delivery.Ticket
  id : Nat
  deadline : Nat
  /-- What it does afterwards. -/
  rest : List Step

def Sender.entry (s : Sender) : Strand × Activity :=
  (s.strand, .waits (.delivery s.ticket s.id s.deadline) s.rest)

def Strand.mayHand : Strand → Bool
  | .call _ | .window _ => true
  | _ => false

def Step.hands : Step → Bool
  | .certificate _ | .flush _ => true
  | _ => false

/-- A step of a connection that comes up or goes down. -/
def Step.announces : Step → Bool
  | .publish _ | .closePool | .pause _ | .note _ | .acknowledge .. => false
  | _ => true

/-- The acknowledgements of a message, numbered below the next one. -/
def IsEcho (next : Nat) (e : Strand × Activity) : Prop :=
  ∃ number < next, ∃ id message,
    e = (.acknowledgement number, .steps (acknowledgements id message))

/-- The acknowledgement that a ticket waits for is on its way. -/
def Echoes (g : Gateway σ) (ticket : Delivery.Ticket) (id : Nat) : Prop :=
  ∃ qos, g.tracker.slot = .awaiting ticket qos id ∧ ∃ number message,
    (Strand.acknowledgement number, Activity.steps (acknowledgements id message)) ∈ g.activities ∧
      message.qos = qos

/-- A sender waits, and nothing else is kept for later. -/
structure Sends (due : Strand → Prop) (g : Gateway σ) (s : Sender) : Prop where
  present : s.entry ∈ g.activities
  mayHand : s.strand.mayHand
  rest : ∀ step ∈ s.rest, step.announces
  window : g.debouncer.window = none
  freed : g.tracker.awaits s.ticket = false → due s.strand
  echoes : g.tracker.awaits s.ticket = true → g.Echoes s.ticket s.id

/-- A window that is running has an alarm before it for the time when it closes, or its turn if it
has just begun or has come to its end. -/
def Rings (due : Strand → Prop) (g : Gateway σ) (w : Window) : Prop :=
  (∃ time, w.closesAt = some time ∧ (time, .window w.generation) ∈ g.agenda.alarms) ∨
    due (.window w.generation) ∧ ∀ time, w.closesAt = some time → time ≤ g.agenda.now

theorem nobody_sends {P : Sender → Prop} : ∀ s ∈ (none : Option Sender), P s := by simp

/-- A gateway takes turns to announce itself. Those who are due have their turns before them. -/
structure OnWay (good : σ → Prop) (due : Strand → Prop) (g : Gateway σ) (sender : Option Sender) :
    Prop where
  running : g.stopping = false
  good : good g.transport
  pool : g.pool.IsIdle
  keys : (g.activities.map (·.1)).Nodup
  entries : ∀ e ∈ g.activities,
    IsEcho g.acknowledged e ∧ due e.1 ∨ ∃ s ∈ sender, e = s.entry
  sends : ∀ s ∈ sender, Sends due g s
  rings : ∀ w, g.debouncer.window = some w → Rings due g w
  alarms : ∀ e ∈ g.agenda.alarms, g.agenda.now < e.1

namespace OnWay

variable {good : σ → Prop} {due due' : Strand → Prop} {g g' : Gateway σ} {sender : Option Sender}

theorem mono (h : OnWay good due g sender) (hdue : ∀ k, due k → due' k) :
    OnWay good due' g sender where
  running := h.running
  good := h.good
  pool := h.pool
  keys := h.keys
  entries e he := (h.entries e he).imp_left (And.imp_right (hdue _))
  sends s hs := { h.sends s hs with freed := fun hfreed => hdue _ ((h.sends s hs).freed hfreed) }
  rings w hw := (h.rings w hw).imp_right (And.imp_left (hdue _))
  alarms := h.alarms

/-- What matters is who is active, what is tracked if somebody waits, and what is kept for later. -/
theorem of_parts (h : OnWay good due g sender) (hrunning : g'.stopping = g.stopping)
    (hgood : good g'.transport) (hpool : g'.pool.IsIdle)
    (hactivities : g'.activities = g.activities)
    (hnumber : g'.acknowledged = g.acknowledged) (htracker : ∀ s ∈ sender, g'.tracker = g.tracker)
    (hdebouncer : g'.debouncer = g.debouncer) (halarms : g'.agenda.alarms = g.agenda.alarms)
    (hnow : g'.agenda.now = g.agenda.now) :
    OnWay good due g' sender where
  running := hrunning.trans h.running
  good := hgood
  pool := hpool
  keys := by rw [hactivities]; exact h.keys
  entries e he := by rw [hnumber]; exact h.entries e (hactivities ▸ he)
  sends s hs := by
    have hsends := h.sends s hs
    have htracker := htracker s hs
    refine ⟨hactivities ▸ hsends.present, hsends.mayHand, hsends.rest,
      by rw [hdebouncer]; exact hsends.window, by rw [htracker]; exact hsends.freed, fun ha => ?_⟩
    rw [Echoes, htracker, hactivities]
    exact hsends.echoes (htracker ▸ ha)
  rings w hw := by
    rw [Rings, halarms, hnow]
    exact h.rings w (hdebouncer ▸ hw)
  alarms := by
    rw [halarms, hnow]
    exact h.alarms

/-- Who has nothing to do need not have a turn. -/
theorem discharge {k : Strand} {ready : Strand → Prop}
    (h : OnWay good (fun x => x = k ∨ ready x) g sender) (hentry : ∀ e ∈ g.activities, e.1 ≠ k)
    (hwindow : ∀ w, g.debouncer.window = some w → Strand.window w.generation ≠ k) :
    OnWay good ready g sender where
  running := h.running
  good := h.good
  pool := h.pool
  keys := h.keys
  entries e he :=
    (h.entries e he).imp_left (And.imp_right fun hd => hd.resolve_left (hentry e he))
  sends s hs :=
    have hsends := h.sends s hs
    { hsends with
      freed := fun hfreed => (hsends.freed hfreed).resolve_left (hentry _ hsends.present) }
  rings w hw := (h.rings w hw).imp_right (And.imp_left fun hd => hd.resolve_left (hwindow w hw))
  alarms := h.alarms

/-- The alarms of others do not matter. -/
theorem silence (h : OnWay good due g sender) {k : Strand}
    (hk : ∀ w, g.debouncer.window = some w → Strand.window w.generation ≠ k) :
    OnWay good due { g with agenda := g.agenda.silence k } sender where
  running := h.running
  good := h.good
  pool := h.pool
  keys := h.keys
  entries := h.entries
  sends s hs :=
    have hsends := h.sends s hs
    { hsends with echoes := hsends.echoes }
  rings w hw := by
    refine (h.rings w hw).imp_left fun ⟨time, hclose, halarm⟩ => ⟨time, hclose, ?_⟩
    exact List.mem_filter.2 ⟨halarm, bne_iff_ne.2 (hk w hw)⟩
  alarms e he := h.alarms e (List.mem_filter.1 he).1

theorem waiting (h : OnWay good due g none) (what : Hold → Bool) : g.waiting what = [] := by
  rw [Gateway.waiting, List.filterMap_eq_nil_iff]
  intro e he
  obtain ⟨⟨number, -, id, message, rfl⟩, -⟩ | ⟨s, hs, -⟩ := h.entries e he
  · rfl
  · cases hs

theorem ne_of_mayHand (h : OnWay good due g none) {k : Strand} (hk : k.mayHand) :
    ∀ e ∈ g.activities, e.1 ≠ k := by
  intro e he
  obtain ⟨⟨number, -, id, message, rfl⟩, -⟩ | ⟨s, hs, -⟩ := h.entries e he
  · rintro rfl
    cases hk
  · cases hs

end OnWay

/-! ## 2. Efforts -/

/-- What is left to do for those who are active or woken, or are going to be. -/
def weight (g : Gateway σ) : Nat :=
  3 * g.activities.length + 2 * g.agenda.alarms.length + g.agenda.ready.length

/-- What is left to do for a window. -/
def windowEffort (d : Debouncer Message) : Nat :=
  match d.window with
  | none => 0
  | some w => 10 * (d.batch.length + 1) + (if w.closesAt.isNone then 3 else 0)

def effort (g : Gateway σ) (steps : List Step) : Nat :=
  g.weight + windowEffort g.debouncer + 10 * steps.countP Step.hands

theorem effort_silence_le (k : Strand) (g : Gateway σ) (steps : List Step) :
    effort { g with agenda := g.agenda.silence k } steps ≤ g.effort steps := by
  have hlength : (g.agenda.silence k).alarms.length ≤ g.agenda.alarms.length :=
    List.length_filter_le ..
  show 3 * g.activities.length + 2 * (g.agenda.silence k).alarms.length + g.agenda.ready.length +
    windowEffort g.debouncer + 10 * steps.countP Step.hands ≤ _
  rw [effort, weight]
  omega

/-! ## 3. Handing over -/

theorem track_of_nobody {g : Gateway σ} (h : ∀ what, g.waiting what = [])
    (tracker : Delivery.Tracker) : g.track tracker = { g with tracker } := by
  rw [track, h]
  rfl

theorem waiting_expect (id : Nat) (message : Outbound) (g : Gateway σ) (what : Hold → Bool) :
    (g.expect id message).waiting what = g.waiting what := by
  show (g.activities ++ [(_, Activity.steps _)]).filterMap _ = _
  rw [List.filterMap_append]
  exact List.append_nil _

variable [Transport σ]

theorem hand_refused {g : Gateway σ} {message : Outbound} {e : LinkError} {transport : σ}
    (h : Transport.publish message g.transport = (.error e, transport)) :
    g.hand message =
      (.error e, { g with transport, notes := g.notes ++ [.published message (.error e)] }) := by
  rw [hand, h]
  rfl

theorem hand_taken {g : Gateway σ} {message : Outbound} {id : Nat} {transport : σ}
    (h : Transport.publish message g.transport = (.ok id, transport))
    (hack : Transport.acknowledges transport = true) :
    g.hand message =
      (.ok id, { g.expect id message with
        transport, notes := g.notes ++ [.published message (.ok id)] }) := by
  rw [hand, h]
  exact congrArg _ (if_pos hack)

theorem handTracked_refused {g : Gateway σ} (hnobody : ∀ what, g.waiting what = [])
    {message : Outbound} {e : LinkError} {transport : σ}
    (h : Transport.publish message g.transport = (.error e, transport)) :
    ∃ tracker, g.handTracked message = (.goesOn (.error (.transport e)),
      { g with
        tracker, transport, notes := g.notes ++ [.published message (.error e)] }) := by
  let armed := (g.tracker.arm message.qos).2
  let refused : Gateway σ := { g with
    tracker := armed, transport, notes := g.notes ++ [.published message (.error e)] }
  have hhand : hand message { g with tracker := armed } = (.error e, refused) := hand_refused h
  refine ⟨armed.disarm (g.tracker.arm message.qos).1, ?_⟩
  rw [handTracked]
  dsimp only
  rw [track_of_nobody hnobody, hhand]
  exact congrArg _ (track_of_nobody (g := refused) hnobody _)

omit [Transport σ] in
/-- A ticket that is used at once finds nothing for it: its publisher waits, if there is time. -/
theorem begin_arm (t : Delivery.Tracker) (qos : Qos) (id deadline now : Nat) :
    let ticket := (t.arm qos).1
    let awaiting : Delivery.Tracker := { (t.arm qos).2 with slot := .awaiting ticket qos id }
    (t.arm qos).2.begin ticket id deadline now =
      if deadline ≤ now then (some (awaiting.expire ticket).1, (awaiting.expire ticket).2)
      else (none, awaiting) := by
  intro ticket awaiting
  have hrecord : (t.arm qos).2.record ticket id = (none, awaiting) := by
    simp [Delivery.Tracker.record, Delivery.Tracker.arm, awaiting, ticket]
  have hverdict : awaiting.verdict? ticket = none := by
    simp [Delivery.Tracker.verdict?, Delivery.Tracker.awaits, awaiting]
  rw [Delivery.Tracker.begin, hrecord]
  dsimp only
  rw [Delivery.Tracker.poll, hverdict]

/-- A message that is taken has its acknowledgements on their way. -/
theorem handTracked_eq_of_taken {g : Gateway σ} (hnobody : ∀ what, g.waiting what = [])
    {message : Outbound} {id : Nat} {transport : σ}
    (h : Transport.publish message g.transport = (.ok id, transport))
    (hack : Transport.acknowledges transport = true) :
    let ticket := (g.tracker.arm message.qos).1
    let deadline := g.agenda.now + g.options.deliveryWaitMs
    let begun := (g.tracker.arm message.qos).2.begin ticket id deadline g.agenda.now
    g.handTracked message =
      (begun.1.elim (.waits (.delivery ticket id deadline))
        fun outcome => .goesOn (.ok (some (id, outcome))),
        { g.expect id message with
          tracker := begun.2, transport, notes := g.notes ++ [.published message (.ok id)] }) := by
  intro ticket deadline begun
  let armed := (g.tracker.arm message.qos).2
  let taken : Gateway σ := { g.expect id message with
    tracker := armed, transport, notes := g.notes ++ [.published message (.ok id)] }
  have hhand : hand message { g with tracker := armed } = (.ok id, taken) := hand_taken h hack
  -- Nobody waits for a delivery, so nobody is woken when the tracker changes.
  have hnobody' (what : Hold → Bool) : taken.waiting what = [] :=
    (waiting_expect id message g what).trans (hnobody what)
  have hnow : taken.agenda.now = g.agenda.now := by
    show (g.agenda.wakeAll _).now = _
    rw [Agenda.wakeAll_eq]
  rw [handTracked]
  dsimp only
  rw [track_of_nobody hnobody, hhand]
  dsimp only
  rw [hnow]
  split
  · next outcome heq =>
    rw [show begun.1 = some outcome from heq]
    exact congrArg _ (track_of_nobody hnobody' begun.2)
  · next heq =>
    rw [show begun.1 = none from heq]
    exact congrArg _ (track_of_nobody hnobody' begun.2)

theorem handTracked_taken {g : Gateway σ} (hnobody : ∀ what, g.waiting what = [])
    {message : Outbound} {id : Nat} {transport : σ}
    (h : Transport.publish message g.transport = (.ok id, transport))
    (hack : Transport.acknowledges transport = true) :
    ∃ progress tracker, g.handTracked message = (progress,
      { g.expect id message with
        tracker, transport, notes := g.notes ++ [.published message (.ok id)] }) ∧
      ∀ hold, progress = .waits hold → ∃ ticket deadline, hold = .delivery ticket id deadline ∧
        tracker.slot = .awaiting ticket message.qos id := by
  refine ⟨_, _, handTracked_eq_of_taken hnobody h hack, ?_⟩
  rw [begin_arm]
  by_cases hdue : g.agenda.now + g.options.deliveryWaitMs ≤ g.agenda.now
  · rw [if_pos hdue]
    exact nofun
  · rw [if_neg hdue]
    rintro hold ⟨⟩
    exact ⟨_, _, rfl, rfl⟩

/-! ## 4. Steps -/

/-- A gateway takes turns, and those who are ready have their turns before them. -/
abbrev Going (good : σ → Prop) (g : Gateway σ) (sender : Option Sender) : Prop :=
  OnWay good (· ∈ g.agenda.ready) g sender

/-- What came of a step: the outlook is another, and an echo comes if the step has to wait. -/
structure Made (good : σ → Prop) (g : Gateway σ) (outlook : Outlook) (hands : Bool)
    (progress : Progress) (g' : Gateway σ) : Prop where
  going : Going good g' none
  setting : g'.setting = g.setting
  outlook : g'.outlook = outlook
  now : g'.agenda.now = g.agenda.now
  window : g.debouncer.window = none → g'.debouncer.window = none
  effort : g'.effort [] + (if hands then 6 else 0) ≤ g.effort [] + (if hands then 10 else 0)
  waits : ∀ hold, progress = .waits hold → hands = true ∧ ∃ ticket id deadline,
    hold = .delivery ticket id deadline ∧ g'.tracker.awaits ticket = true ∧ g'.Echoes ticket id

omit [Transport σ] in
theorem nodup_keys_append {entries : List (Strand × Activity)} {k : Strand}
    (h : (entries.map (·.1)).Nodup) (hk : ∀ e ∈ entries, e.1 ≠ k) (a : Activity) :
    ((entries ++ [(k, a)]).map (·.1)).Nodup := by
  rw [List.map_append, List.nodup_append]
  refine ⟨h, by simp, fun k' hk' k'' hk'' => ?_⟩
  obtain ⟨e, he, rfl⟩ := List.mem_map.1 hk'
  rw [List.map_singleton, List.mem_singleton] at hk''
  rw [hk'']
  exact hk e he

omit [Transport σ] in
theorem OnWay.expect {good : σ → Prop} {g : Gateway σ} (h : Going good g none) (id : Nat)
    (message : Outbound) : Going good (g.expect id message) none where
  running := h.running
  good := h.good
  pool := h.pool
  keys := by
    refine nodup_keys_append h.keys (fun e he => ?_) _
    -- The number of the new echo has not been given before.
    obtain ⟨⟨number, hlt, _, _, rfl⟩, -⟩ | ⟨s, hs, -⟩ := h.entries e he
    · intro heq
      rw [Strand.acknowledgement.injEq] at heq
      omega
    · cases hs
  entries e he := by
    rcases List.mem_append.1 he with he | he
    · obtain ⟨⟨number, hlt, hecho⟩, hd⟩ | ⟨s, hs, -⟩ := h.entries e he
      · exact .inl ⟨⟨number, Nat.lt_succ_of_lt hlt, hecho⟩,
          Agenda.mem_ready_wakeAll.2 (.inl hd)⟩
      · cases hs
    · rw [List.mem_singleton] at he
      subst he
      exact .inl ⟨⟨g.acknowledged, Nat.lt_succ_self _, id, message, rfl⟩,
        Agenda.mem_ready_wakeAll.2 (.inr (List.mem_singleton.2 rfl))⟩
  sends := nobody_sends
  rings w hw := by
    rw [Rings, show (g.expect id message).agenda = g.agenda.wakeAll _ from rfl, Agenda.wakeAll_eq]
    exact (h.rings w hw).imp_right (And.imp_left fun hd => Agenda.mem_ready_wakeAll.2 (.inl hd))
  alarms := by
    rw [show (g.expect id message).agenda = g.agenda.wakeAll _ from rfl, Agenda.wakeAll_eq]
    exact h.alarms

omit [Transport σ] in
theorem weight_expect_le (id : Nat) (message : Outbound) (g : Gateway σ) :
    (g.expect id message).weight ≤ g.weight + 4 := by
  have hready : (g.expect id message).agenda.ready.length ≤ g.agenda.ready.length + 1 :=
    Agenda.length_ready_wakeAll_le ..
  have halarms : (g.expect id message).agenda.alarms = g.agenda.alarms := by
    show (g.agenda.wakeAll _).alarms = _
    rw [Agenda.wakeAll_eq]
  have hactivities : (g.expect id message).activities.length = g.activities.length + 1 :=
    List.length_append
  rw [weight, weight, halarms, hactivities]
  omega

theorem made_handTracked_taken {good : σ → Prop} (hprompt : IsPrompt good) {g : Gateway σ}
    (h : Going good g none) (hup : g.isConnected = true) (m : Message) {out : Outbound}
    (hout : g.setting.outbound m = some out) :
    ∃ progress g', g.handTracked out = (progress, g') ∧
      Made good g (g.outlook.hand g.setting m) true progress g' := by
  obtain ⟨hgood, hstays⟩ := hprompt.publish g.transport out h.good
  obtain ⟨⟨id, hid⟩, hack⟩ := hprompt.takes out h.good hup
  obtain ⟨progress, tracker, heq, hwaits⟩ := handTracked_taken h.waiting (Prod.ext hid rfl) hack
  have hnow : (g.expect id out).agenda.now = g.agenda.now := by
    show (g.agenda.wakeAll _).now = _
    rw [Agenda.wakeAll_eq]
  refine ⟨progress, _, heq, ⟨?_, rfl, ?_, hnow, fun h => h, ?_, fun hold hhold => ⟨rfl, ?_⟩⟩⟩
  · exact (h.expect id out).of_parts rfl hgood h.pool rfl rfl nobody_sends rfl rfl rfl
  · rw [Outlook.hand, hout, show g.outlook.isUp = true from hup]
    refine Outlook.ext ?_ (hstays.trans hup) rfl ?_
    · show (g.notes ++ [_]).filterMap Note.handed? = _
      rw [List.filterMap_append]
      rfl
    · show g.debouncer.window.map _ = g.debouncer.window.map _
      rw [hnow]
  · have hweight := weight_expect_le id out g
    show (g.expect id out).weight + windowEffort g.debouncer + 0 + 6 ≤ _
    rw [effort, List.countP_nil, if_pos rfl]
    omega
  · obtain ⟨ticket, deadline, rfl, hslot⟩ := hwaits hold hhold
    refine ⟨ticket, id, deadline, rfl, ?_, out.qos, hslot, g.acknowledged, out, ?_, rfl⟩
    · show tracker.awaits ticket = true
      rw [Delivery.Tracker.awaits, hslot]
      exact beq_self_eq_true ticket
    · exact List.mem_append_right _ (List.mem_singleton.2 rfl)

theorem made_handTracked_refused {good : σ → Prop} (hprompt : IsPrompt good) {g : Gateway σ}
    (h : Going good g none) (hup : g.isConnected = false) (m : Message) {out : Outbound}
    (hout : g.setting.outbound m = some out) :
    ∃ progress g', g.handTracked out = (progress, g') ∧
      Made good g (g.outlook.hand g.setting m) true progress g' := by
  obtain ⟨hgood, hstays⟩ := hprompt.publish g.transport out h.good
  obtain ⟨e, he⟩ := hprompt.refuses out h.good hup
  obtain ⟨tracker, heq⟩ := handTracked_refused h.waiting (Prod.ext he rfl)
  refine ⟨_, _, heq, ⟨?_, rfl, ?_, rfl, fun h => h, ?_, by simp⟩⟩
  · exact h.of_parts rfl hgood h.pool rfl rfl nobody_sends rfl rfl rfl
  · rw [Outlook.hand, hout, show g.outlook.isUp = false from hup]
    refine Outlook.ext ?_ (hstays.trans hup) rfl rfl
    show (g.notes ++ [_]).filterMap Note.handed? = _
    rw [List.filterMap_append]
    rfl
  · show g.effort [] + 6 ≤ g.effort [] + 10
    omega

theorem made_deliver {good : σ → Prop} (hprompt : IsPrompt good) {g : Gateway σ}
    (h : Going good g none) (m : Message) :
    ∃ progress g', g.deliver m false = (progress, g') ∧
      Made good g (g.outlook.hand g.setting m) true progress g' := by
  cases hresolve : m.destination.resolve g.options with
  | error fault =>
    have hnone : g.setting.outbound m = none := by
      rw [Setting.outbound, setting, hresolve]
    refine ⟨.goesOn (.error (.destination fault)), g, by rw [deliver, hresolve],
      ⟨h, rfl, ?_, rfl, id, by simp, by simp⟩⟩
    rw [Outlook.hand, hnone]
    simp
  | ok topic =>
    let out : Outbound :=
      ⟨topic, g.options.encodePayload m.payload, m.qos, m.retain, m.priority⟩
    have hout : g.setting.outbound m = some out := by
      rw [Setting.outbound, setting, hresolve]
    have hdeliver : g.deliver m false = g.handTracked out := by
      rw [deliver, hresolve]
      rfl
    rw [hdeliver]
    cases hup : g.isConnected with
    | true => exact made_handTracked_taken hprompt h hup m hout
    | false => exact made_handTracked_refused hprompt h hup m hout

theorem Made.of_idle {good : σ → Prop} {g g' : Gateway σ} (h : Going good g none)
    (hidle : Idle good g g') (result : Result) :
    Made good g g.outlook false (.goesOn result) g' := by
  have hgood := (hidle.stays h.good).1
  have houtlook := hidle.outlook h.good
  have hsetting := hidle.setting
  rw [hidle.same] at houtlook hsetting ⊢
  exact ⟨h.of_parts rfl hgood h.pool rfl rfl (fun _ _ => rfl) rfl rfl rfl, hsetting, houtlook, rfl,
    id, Nat.le_refl _, nofun⟩

/-- What comes of a step was foreseen. -/
theorem made_take {good : σ → Prop} (hprompt : IsPrompt good) {g : Gateway σ}
    (h : Going good g none) {step : Step} (hstep : step.announces) :
    ∃ progress g', g.take step = (progress, g') ∧
      Made good g (g.outlook.foresee g.setting step) step.hands progress g' := by
  cases step with
  | enter state => exact ⟨_, _, rfl, .of_idle h (idle_enter state g) _⟩
  | dropPending =>
    refine ⟨_, _, rfl, ⟨?_, rfl, rfl, rfl, fun _ => rfl, ?_, nofun⟩⟩
    · exact { h with entries := h.entries, sends := nobody_sends, rings := nofun }
    · show g.weight + 0 + 0 ≤ g.weight + windowEffort g.debouncer + 0
      omega
  | certificate kind => exact made_deliver hprompt h (g.certificate kind)
  | flush m =>
    obtain ⟨progress, g', heq, hmade⟩ := made_deliver hprompt h m
    refine ⟨progress, g', ?_, hmade⟩
    rw [take, h.running, if_neg Bool.false_ne_true, heq]
  | reconcile isNew => exact ⟨_, _, rfl, .of_idle h (idle_reconcile hprompt isNew g) _⟩
  | resubscribe => exact ⟨_, _, rfl, .of_idle h (idle_resubscribe hprompt g) _⟩
  | tell event => exact ⟨_, _, rfl, .of_idle h (idle_tell event g) _⟩
  | closeTransport =>
    obtain ⟨hgood, hdown⟩ := hprompt.endClose h.good
    refine ⟨_, _, rfl, ⟨?_, rfl, ?_, rfl, fun h => h, Nat.le_refl _, nofun⟩⟩
    · exact h.of_parts rfl hgood h.pool rfl rfl (fun _ _ => rfl) rfl rfl rfl
    · exact Outlook.ext rfl hdown rfl rfl
  | publish | closePool | pause | note | acknowledge => cases hstep

/-! ## 5. Runs of steps -/

/-- What is kept for later is dropped before a certificate is handed over. -/
def clearsFirst : List Step → Bool
  | [] => true
  | .dropPending :: _ => true
  | step :: steps => !step.hands && clearsFirst steps

theorem clearsFirst_cons {step : Step} {steps : List Step} (h : clearsFirst (step :: steps)) :
    step = .dropPending ∨ step.hands = false ∧ clearsFirst steps := by
  unfold clearsFirst at h
  split at h
  · next heq => cases heq
  · next heq =>
    cases heq
    exact .inl rfl
  · next heq =>
    cases heq
    rw [Bool.and_eq_true, Bool.not_eq_true'] at h
    exact .inr h

/-- What a gateway comes to when steps are taken and time passes up to a limit. -/
def forecast (g : Gateway σ) (steps : List Step) (limit : Nat) : Outlook :=
  (g.outlook.foreseeAll g.setting steps).lapse g.setting limit

def todo (sender : Option Sender) : List Step := (sender.map Sender.rest).getD []

/-- Where a gateway heads for. -/
structure Aim where
  since : Nat
  limit : Nat
  setting : Setting
  outlook : Outlook

/-- What a gateway heads for when steps are to be taken. -/
abbrev aim (since limit : Nat) (steps : List Step) (g : Gateway σ) : Aim :=
  ⟨since, limit, g.setting, g.forecast steps limit⟩

/-- A gateway is on its way to an outlook, which it reaches with an effort. -/
structure Heads (good : σ → Prop) (aim : Aim) (effort : Nat) (g : Gateway σ)
    (sender : Option Sender) : Prop where
  going : Going good g sender
  now : aim.since ≤ g.agenda.now ∧ g.agenda.now ≤ aim.limit
  setting : g.setting = aim.setting
  target : g.forecast (todo sender) aim.limit = aim.outlook
  effort : g.effort (todo sender) ≤ effort

theorem aim_congr {g g' : Gateway σ} (houtlook : g'.outlook = g.outlook)
    (hsetting : g'.setting = g.setting) (since limit : Nat) (steps : List Step) :
    g'.aim since limit steps = g.aim since limit steps := by
  rw [aim, aim, forecast, forecast, hsetting, houtlook]

theorem Heads.aim_eq {good : σ → Prop} {aim : Aim} {effort : Nat} {g : Gateway σ}
    {sender : Option Sender} (h : Heads good aim effort g sender) :
    g.aim aim.since aim.limit (todo sender) = aim := by
  rw [Gateway.aim, h.setting, h.target]

theorem Heads.of_eq {good : σ → Prop} {aim aim' : Aim} {effort effort' : Nat} {g : Gateway σ}
    {sender : Option Sender} (h : Heads good aim effort g sender) (haim : aim = aim')
    (heffort : effort ≤ effort') : Heads good aim' effort' g sender :=
  haim ▸ { h with effort := Nat.le_trans h.effort heffort }

omit [Transport σ] in
theorem effort_eq (g : Gateway σ) (steps : List Step) :
    g.effort steps = g.effort [] + 10 * steps.countP Step.hands :=
  rfl

theorem heads_finish {good : σ → Prop} {since limit : Nat} {g : Gateway σ} (h : Going good g none)
    (hnow : since ≤ g.agenda.now ∧ g.agenda.now ≤ limit) {strand : Strand}
    (hstrand : strand.mayHand)
    (hfree : g.debouncer.window = none ∨ ∃ caller, strand = .call caller) (result : Result) :
    Heads good (g.aim since limit []) (g.effort []) (g.finish strand result)
      none := by
  have hactivities : g.activities.filter (·.1 != strand) = g.activities :=
    List.filter_eq_self.2 fun e he => bne_iff_ne.2 (h.ne_of_mayHand hstrand e he)
  have hdrop : g.drop strand = { g with agenda := g.agenda.silence strand } := by
    rw [drop, hactivities]
  have hgoing : Going good { g with agenda := g.agenda.silence strand } none := by
    refine h.silence fun w hw => ?_
    rcases hfree with hnone | ⟨caller, rfl⟩
    · rw [hnone] at hw
      cases hw
    · exact nofun
  have heffort := effort_silence_le strand g []
  cases strand with
  | call caller =>
    rw [finish, hdrop]
    exact ⟨{ hgoing with sends := nobody_sends }, hnow, rfl, rfl, heffort⟩
  | window generation =>
    rw [finish, hdrop]
    · exact ⟨hgoing, hnow, rfl, rfl, heffort⟩
    · exact nofun
    · exact nofun
  | pool | acknowledgement => cases hstrand

omit [Transport σ] in
/-- When an activity waits for a delivery, nothing but the alarms depends on whether the deadline is
still to come. -/
theorem exists_alarms_of_wait {g : Gateway σ} {strand : Strand}
    (hne : ∀ e ∈ g.activities, e.1 ≠ strand) (hlater : ∀ e ∈ g.agenda.alarms, g.agenda.now < e.1)
    (ticket : Delivery.Ticket) (id deadline : Nat) (a : Activity) :
    ∃ alarms : List (Nat × Strand), alarms.length ≤ g.agenda.alarms.length + 1 ∧
      (∀ e ∈ alarms, g.agenda.now < e.1) ∧
      (g.hold strand a).setAlarm strand (.delivery ticket id deadline) =
        { g with
          activities := g.activities ++ [(strand, a)]
          agenda := { g.agenda with alarms } } := by
  have hactivities : g.activities.filter (·.1 != strand) = g.activities :=
    List.filter_eq_self.2 fun e he => bne_iff_ne.2 (hne e he)
  have hlength : (g.agenda.silence strand).alarms.length ≤ g.agenda.alarms.length :=
    List.length_filter_le ..
  have hsilence (e : Nat × Strand) (he : e ∈ (g.agenda.silence strand).alarms) :
      g.agenda.now < e.1 :=
    hlater e (List.mem_filter.1 he).1
  rw [hold, hactivities, setAlarm]
  dsimp only [Hold.deadline?]
  by_cases hpast : deadline ≤ (g.agenda.silence strand).now
  · exact ⟨(g.agenda.silence strand).alarms, by omega, hsilence, by rw [if_pos hpast]; rfl⟩
  · refine ⟨((g.agenda.silence strand).alarm deadline strand).alarms, ?_, fun e he => ?_,
      by rw [if_neg hpast]; rfl⟩
    · rw [Agenda.alarm, List.length_append, List.length_singleton]
      omega
    · rcases List.mem_append.1 he with he | he
      · exact hsilence e he
      · rw [List.mem_singleton] at he
        subst he
        exact Nat.lt_of_not_le hpast

theorem heads_wait {good : σ → Prop} {since limit : Nat} {g : Gateway σ} (h : Going good g none)
    (hnow : since ≤ g.agenda.now ∧ g.agenda.now ≤ limit) {strand : Strand}
    (hstrand : strand.mayHand)
    (hwindow : g.debouncer.window = none) {rest : List Step} (hrest : ∀ step ∈ rest, step.announces)
    (deadline : Nat) {ticket : Delivery.Ticket} {id : Nat}
    (hawaits : g.tracker.awaits ticket = true) (hechoes : g.Echoes ticket id) :
    Heads good (g.aim since limit rest) (g.effort rest + 5)
      ((g.hold strand (.waits (.delivery ticket id deadline) rest)).setAlarm strand
        (.delivery ticket id deadline)) (some ⟨strand, ticket, id, deadline, rest⟩) := by
  let entry : Strand × Activity := (strand, .waits (.delivery ticket id deadline) rest)
  have hne := h.ne_of_mayHand hstrand
  obtain ⟨alarms, hlength, hlater, heq⟩ :=
    exists_alarms_of_wait hne h.alarms ticket id deadline entry.2
  rw [heq]
  refine ⟨?_, hnow, rfl, rfl, ?_⟩
  · -- The entry that is added is that of the sender, and nobody else waits.
    refine { h with keys := ?_, entries := ?_, sends := ?_, rings := ?_, alarms := hlater }
    · exact nodup_keys_append h.keys hne entry.2
    · intro e he
      rcases List.mem_append.1 he with he | he
      · obtain hecho | ⟨s, hs, -⟩ := h.entries e he
        · exact .inl hecho
        · cases hs
      · exact .inr ⟨_, rfl, List.mem_singleton.1 he⟩
    · intro s hs
      cases hs
      refine ⟨List.mem_append_right _ (List.mem_singleton.2 rfl), hstrand, hrest, hwindow,
        fun hfreed => ?_, fun _ => ?_⟩
      · rw [show g.tracker.awaits ticket = false from hfreed] at hawaits
        cases hawaits
      · obtain ⟨qos, hslot, number, message, hmem, hqos⟩ := hechoes
        exact ⟨qos, hslot, number, message, List.mem_append_left _ hmem, hqos⟩
    · intro w hw
      rw [hwindow] at hw
      cases hw
  · show 3 * (g.activities ++ [entry]).length + 2 * alarms.length + g.agenda.ready.length +
      windowEffort g.debouncer + 10 * rest.countP Step.hands ≤ g.effort rest + 5
    rw [List.length_append, List.length_singleton, effort, weight]
    omega

/-- **However steps are taken, the gateway heads for what they were foreseen to come to.** -/
theorem heads_run {good : σ → Prop} (hprompt : IsPrompt good) {since limit : Nat}
    {strand : Strand} (hstrand : strand.mayHand) {steps : List Step}
    (hsteps : ∀ step ∈ steps, step.announces) (result : Result) {g : Gateway σ}
    (h : Going good g none) (hnow : since ≤ g.agenda.now ∧ g.agenda.now ≤ limit)
    (hfree : g.debouncer.window = none ∨
      (∃ caller, strand = .call caller) ∧ clearsFirst steps) :
    ∃ sender, Heads good (g.aim since limit steps) (g.effort steps)
      (g.run strand steps result) sender := by
  -- By induction on the steps: each one moves the gateway on towards the same aim, and costs no
  -- more effort than was counted for it.
  induction steps generalizing g result with
  | nil => exact ⟨none, heads_finish h hnow hstrand (hfree.imp_right And.left) result⟩
  | cons step rest ih =>
    have hrest : ∀ step ∈ rest, step.announces := fun s hs => hsteps s (List.mem_cons_of_mem _ hs)
    obtain ⟨progress, g', heq, hmade⟩ := made_take hprompt h (hsteps step List.mem_cons_self)
    have hnow' : since ≤ g'.agenda.now ∧ g'.agenda.now ≤ limit := hmade.now ▸ hnow
    have haim : g'.aim since limit rest = g.aim since limit (step :: rest) := by
      rw [aim, forecast, hmade.outlook, hmade.setting]
      rfl
    have heffort : g'.effort rest + (if step.hands then 6 else 0) ≤ g.effort (step :: rest) := by
      have hmade := hmade.effort
      rw [effort_eq, effort_eq g, List.countP_cons]
      by_cases hhands : step.hands = true
      · rw [if_pos hhands, if_pos hhands] at hmade
        rw [if_pos hhands, if_pos hhands]
        omega
      · rw [if_neg hhands, if_neg hhands] at hmade
        rw [if_neg hhands, if_neg hhands]
        omega
    rw [run, heq]
    cases progress with
    | goesOn result' =>
      -- A window is open at most until the step that clears it.
      have hfree' : g'.debouncer.window = none ∨
          (∃ caller, strand = .call caller) ∧ clearsFirst rest := by
        rcases hfree with hnone | ⟨hcaller, hclears⟩
        · exact .inl (hmade.window hnone)
        · rcases clearsFirst_cons hclears with rfl | ⟨-, hclears⟩
          · have hcloses := congrArg Outlook.closesAt hmade.outlook
            exact .inl (Option.map_eq_none_iff.1 hcloses)
          · exact .inr ⟨hcaller, hclears⟩
      obtain ⟨sender, hheads⟩ := ih hrest result' hmade.going hnow' hfree'
      exact ⟨sender, hheads.of_eq haim (by omega)⟩
    | waits hold =>
      -- Only a step that hands something over waits, and it comes after the one that clears.
      obtain ⟨hhands, ticket, id, deadline, rfl, hawaits, hechoes⟩ := hmade.waits hold rfl
      have hwindow : g'.debouncer.window = none := by
        rcases hfree with hnone | ⟨-, hclears⟩
        · exact hmade.window hnone
        · rcases clearsFirst_cons hclears with rfl | ⟨hnone, -⟩
          · cases hhands
          · rw [hnone] at hhands
            cases hhands
      have hheads := heads_wait hmade.going hnow' hstrand hwindow hrest deadline hawaits hechoes
      rw [if_pos hhands] at heffort
      exact ⟨_, hheads.of_eq haim (by omega)⟩

end Uplink.Gateway
