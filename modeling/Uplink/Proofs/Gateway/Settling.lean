import Uplink.Proofs.Gateway.Frames
import Uplink.Proofs.Gateway.Rounds

/-!
# Where gateways settle

A gateway whose turns come one after the other comes to rest, with the outlook that it headed for.
Whatever it is asked or told, what becomes of its outlook is known before anybody has a turn.
-/

namespace Uplink.Gateway

variable {σ : Type} [Transport σ]

/-! ## 1. Gateways that settle -/

/-- A gateway at which nobody is active or ready. -/
structure IsSettled (good : σ → Prop) (g : Gateway σ) : Prop where
  going : Going good g none
  ready : g.agenda.ready = []

/-- Nothing that is kept is due. -/
theorem IsSettled.lt_closesAt {good : σ → Prop} {g : Gateway σ} (h : IsSettled good g) {time : Nat}
    (htime : g.outlook.closesAt = some time) :
    g.agenda.now < time ∧ ∃ k, (time, k) ∈ g.agenda.alarms := by
  obtain ⟨w, hw, hclose⟩ := Option.map_eq_some_iff.1 htime
  obtain ⟨t, ht, halarm⟩ | ⟨hd, -⟩ := h.going.rings w hw
  · rw [ht] at hclose
    cases hclose
    exact ⟨h.going.alarms _ halarm, _, halarm⟩
  · rw [h.ready] at hd
    cases hd

/-- A turn or a ring brings a gateway nearer to where it heads for. -/
theorem heads_next {goal : Gateway σ → Bool} {mayWait : Nat → Bool} {good : σ → Prop}
    (hprompt : IsPrompt good) {aim : Aim} {effort : Nat} {g next : Gateway σ}
    {sender : Option Sender} (h : Heads good aim effort g sender)
    (hwait : g.agenda.ready = [] → ∀ time, mayWait time = true → time ≤ aim.limit)
    (hnext : Timed.next? goal mayWait g = some next) :
    ∃ less < effort, ∃ sender', Heads good aim less next sender' := by
  obtain ⟨-, ⟨k, agenda, hturn, rfl⟩ | ⟨time, hready, halarm, hmay, rfl⟩⟩ :=
    Timed.next?_cases hnext
  · exact heads_turn hprompt h hturn
  · obtain ⟨less, hless, hheads⟩ := heads_ring h hready halarm (hwait hready time hmay)
    exact ⟨less, hless, none, hheads⟩

/-- **A gateway comes to where it heads for.** -/
theorem heads_drive (goal : Gateway σ → Bool) (mayWait : Nat → Bool) {good : σ → Prop}
    (hprompt : IsPrompt good) {aim : Aim} {effort : Nat} {g : Gateway σ}
    {sender : Option Sender} (h : Heads good aim effort g sender)
    (hwait : ∀ g' left sender', Heads good aim left g' sender' → goal g' = false →
      g'.agenda.ready = [] → ∀ time, mayWait time = true → time ≤ aim.limit) :
    ∃ g' left sender', Timed.drive goal mayWait g = some g' ∧ Heads good aim left g' sender' ∧
      Timed.next? goal mayWait g' = none := by
  have hstep (effort : Nat) (v next : Gateway σ) (hv : ∃ sender, Heads good aim effort v sender)
      (hnext : Timed.next? goal mayWait v = some next) :
      ∃ less < effort, ∃ sender, Heads good aim less next sender := by
    obtain ⟨sender, hheads⟩ := hv
    exact heads_next hprompt hheads
      (hwait v effort sender hheads (Timed.next?_cases hnext).1) hnext
  obtain ⟨g', left, hdrive, ⟨sender', hheads⟩, hended⟩ :=
    Timed.exists_endsIn (motive := fun effort g => ∃ sender, Heads good aim effort g sender)
      ⟨sender, h⟩ hstep
  exact ⟨g', left, sender', hdrive, hheads, hended⟩

theorem ended_of_next? {mayWait : Nat → Bool} {g : Gateway σ}
    (h : Timed.next? (fun _ => false) mayWait g = none) :
    g.agenda.ready = [] ∧ ∀ time, g.agenda.nextAlarm? = some time → mayWait time = false :=
  (Timed.ended_of_next? h).resolve_left Bool.false_ne_true

theorem follows_notes : Timed.Follows fun g g' : Gateway σ => g.notes <+: g'.notes where
  refl _ := List.prefix_rfl
  trans := List.IsPrefix.trans
  plan _ _ := List.prefix_rfl
  turn k agenda g := (spares_turn k { g with agenda }).notes

/-- Where nobody is ready and nothing is due up to the limit, the aim is reached. -/
theorem Heads.reached {good : σ → Prop} {aim : Aim} {effort : Nat} {g : Gateway σ}
    {sender : Option Sender} (h : Heads good aim effort g sender) (hready : g.agenda.ready = [])
    (hlater : ∀ time, g.outlook.closesAt = some time → aim.limit < time) :
    IsSettled good g ∧ g.outlook = aim.outlook := by
  obtain rfl := h.sender_eq_none hready
  refine ⟨⟨h.going, hready⟩, ?_⟩
  rw [← h.target, forecast]
  exact (Outlook.lapse_of_not_due hlater).symm

/-- A gateway has settled with an outlook at a time. -/
structure SettledAs (good : σ → Prop) (setting : Setting) (outlook : Outlook) (now : Nat)
    (g : Gateway σ) : Prop where
  settled : IsSettled good g
  setting : g.setting = setting
  outlook : g.outlook = outlook
  now : g.agenda.now = now

/-- A gateway settles before any time passes. -/
theorem Heads.settle {good : σ → Prop} (hprompt : IsPrompt good) {now effort : Nat}
    {setting : Setting} {target : Outlook} {g : Gateway σ} {sender : Option Sender}
    (h : Heads good ⟨now, now, setting, target⟩ effort g sender) (otherwise : Gateway σ) :
    let g' := (Timed.drive (fun _ => false) (fun _ => false) g).getD otherwise
    SettledAs good setting target now g' ∧ g.notes <+: g'.notes := by
  obtain ⟨g', left, sender', hdrive, hheads, hended⟩ :=
    heads_drive (fun _ => false) (fun _ => false) hprompt h
      fun _ _ _ _ _ _ _ hmay => nomatch hmay
  have hnow : g'.agenda.now = now := Nat.le_antisymm hheads.now.2 hheads.now.1
  obtain ⟨hready, -⟩ := ended_of_next? hended
  obtain rfl := hheads.sender_eq_none hready
  obtain ⟨hsettled, houtlook⟩ := hheads.reached hready fun time htime =>
    hnow ▸ (IsSettled.lt_closesAt ⟨hheads.going, hready⟩ htime).1
  rw [hdrive]
  exact ⟨⟨hsettled, hheads.setting, houtlook, hnow⟩, follows_notes.drive hdrive⟩

/-- Time passes, and what is due up to its end is done. -/
theorem Heads.pass {good : σ → Prop} (hprompt : IsPrompt good) {since ms effort : Nat}
    {setting : Setting} {target : Outlook} {g : Gateway σ} {sender : Option Sender}
    (h : Heads good ⟨since, g.agenda.now + ms, setting, target⟩ effort g sender) :
    SettledAs good setting target (g.agenda.now + ms) (Timed.pass ms g) := by
  let time := g.agenda.now + ms
  obtain ⟨g', left, sender', hdrive, hheads, hended⟩ :=
    heads_drive (fun _ => false) (· ≤ time) hprompt h
      fun _ _ _ _ _ _ _ hmay => of_decide_eq_true hmay
  obtain ⟨hready, hwaits⟩ := ended_of_next? hended
  -- All alarms that are left ring later.
  have hlater (e : Nat × Strand) (he : e ∈ g'.agenda.alarms) : time < e.1 := by
    cases hnext : g'.agenda.nextAlarm? with
    | none =>
      have hnone := List.min?_eq_none_iff.1 hnext
      rw [List.map_eq_nil_iff.1 hnone] at he
      cases he
    | some t =>
      have hle := Agenda.le_of_nextAlarm? hnext he
      have hlt := of_decide_eq_false (hwaits t hnext)
      omega
  obtain rfl := hheads.sender_eq_none hready
  obtain ⟨hsettled, houtlook⟩ := hheads.reached hready fun t ht => by
    obtain ⟨-, k, halarm⟩ := IsSettled.lt_closesAt ⟨hheads.going, hready⟩ ht
    exact hlater _ halarm
  rw [Timed.pass, show Timed.now g + ms = time from rfl, hdrive]
  refine ⟨⟨⟨hsettled.going.running, hsettled.going.good, hsettled.going.pool, hsettled.going.keys,
    hsettled.going.entries, nobody_sends, fun w hw => ?_, hlater⟩, hready⟩, hheads.setting, ?_, rfl⟩
  · obtain hring | ⟨hd, -⟩ := hsettled.going.rings w hw
    · exact .inl hring
    · rw [hready] at hd
      cases hd
  · refine Eq.trans ?_ houtlook
    refine Outlook.ext rfl rfl rfl ?_
    show g'.debouncer.window.map _ = g'.debouncer.window.map _
    cases hw : g'.debouncer.window with
    | none => rfl
    | some w =>
      -- The window has begun, so that it closes when it was going to.
      obtain ⟨t, hclose, -⟩ | ⟨hd, -⟩ := hsettled.going.rings w hw
      · rw [Option.map_some, Option.map_some, hclose]
        rfl
      · rw [hready] at hd
        cases hd

/-! ## 2. Calls -/

/-- A call that has to do with the connection only. -/
def Call.announces : Call → Bool
  | .shutDown | .publish _ => false
  | _ => true

def connects (t : σ) : Bool :=
  match (Transport.connect t).1 with
  | .ok .established => true
  | _ => false

namespace Outlook

/-- What it comes to when the transport is told to connect. -/
def connect (t : σ) (s : Setting) (o : Outlook) : Outlook :=
  if connects t then { o with isUp := true }.foreseeAll s (callbackSteps .established) else o

def call (t : σ) (s : Setting) : Call → Outlook → Outlook
  | .start, o => if o.isUp then o.foreseeAll s establishedSteps else o.connect t s
  | .connect, o => o.connect t s
  | .disconnect, o =>
    if o.isUp && (Transport.beginClose t).1.isOk then
      o.foreseeAll s
        (callbackSteps .disconnecting ++ [.closeTransport] ++ callbackSteps .disconnected)
    else o
  | .callback c, o => o.foreseeAll s (callbackSteps c)
  | _, o => o

end Outlook

structure Begun (good : σ → Prop) (g : Gateway σ) (outlook : Outlook)
    (begun : Result × List Step × Gateway σ) : Prop where
  going : Going good begun.2.2 none
  setting : begun.2.2.setting = g.setting
  agenda : begun.2.2.agenda = g.agenda
  announces : ∀ step ∈ begun.2.1, step.announces
  clears : clearsFirst begun.2.1
  outlook : begun.2.2.outlook.foreseeAll g.setting begun.2.1 = outlook

theorem announces_callbackSteps (c : Callback) : ∀ step ∈ callbackSteps c, step.announces := by
  cases c <;> decide

theorem begun_connect {good : σ → Prop} (hprompt : IsPrompt good) {g : Gateway σ}
    (h : Going good g none) :
    Begun good g (g.outlook.connect g.transport g.setting) g.beginConnect := by
  obtain ⟨hgood, hup⟩ := hprompt.connect h.good
  cases hconnect : Transport.connect g.transport with
  | mk result transport =>
    rw [hconnect] at hgood hup
    have hgoing (state : State) : Going good { g with transport, state } none :=
      h.of_parts rfl hgood h.pool rfl rfl nobody_sends rfl rfl rfl
    rw [beginConnect, hconnect, Outlook.connect, connects, hconnect]
    cases result with
    | error e =>
      exact ⟨hgoing _, rfl, rfl, List.forall_mem_nil _, rfl, Outlook.ext rfl hup rfl rfl⟩
    | ok connecting =>
      cases connecting with
      | already => exact ⟨hgoing _, rfl, rfl, List.forall_mem_nil _, rfl, Outlook.ext rfl hup rfl rfl⟩
      | established =>
        refine ⟨hgoing _, rfl, rfl, announces_callbackSteps .established, rfl, ?_⟩
        exact congrArg (fun o => Outlook.foreseeAll g.setting _ o) (Outlook.ext rfl hup rfl rfl)

theorem begun_disconnect {good : σ → Prop} (hprompt : IsPrompt good) {g : Gateway σ}
    (h : Going good g none) :
    Begun good g (g.outlook.call g.transport g.setting .disconnect) g.beginDisconnect := by
  have hstays : Begun good g g.outlook (nothing, [], g) :=
    ⟨h, rfl, rfl, List.forall_mem_nil _, rfl, rfl⟩
  rw [beginDisconnect, Outlook.call]
  cases hup : g.isConnected with
  | false =>
    rw [show g.outlook.isUp = false from hup]
    exact hstays
  | true =>
    rw [show g.outlook.isUp = true from hup]
    obtain ⟨hgood, hsame⟩ := hprompt.beginClose g.transport h.good
    cases hclose : Transport.beginClose g.transport with
    | mk result transport =>
      rw [hclose] at hgood hsame
      have hgoing : Going good { g with transport } none :=
        h.of_parts rfl hgood h.pool rfl rfl nobody_sends rfl rfl rfl
      have houtlook : outlook { g with transport } = g.outlook := Outlook.ext rfl hsame rfl rfl
      cases result with
      | error e => exact ⟨hgoing, rfl, rfl, List.forall_mem_nil _, rfl, houtlook⟩
      | ok _ =>
        refine ⟨hgoing, rfl, rfl, ?_, rfl, ?_⟩
        · exact show ∀ step ∈ callbackSteps .disconnecting ++ [.closeTransport] ++
            callbackSteps .disconnected, _ by decide
        · exact congrArg (fun o => Outlook.foreseeAll g.setting _ o) houtlook

theorem begun_call {good : σ → Prop} (hprompt : IsPrompt good) {g : Gateway σ}
    (h : Going good g none) {call : Call} (hcall : call.announces) :
    Begun good g (g.outlook.call g.transport g.setting call) (g.beginCall call) := by
  cases call with
  | shutDown | publish => cases hcall
  | connect =>
    rw [beginCall, h.running, if_neg Bool.false_ne_true]
    exact begun_connect hprompt h
  | start =>
    rw [beginCall, h.running, if_neg Bool.false_ne_true, Outlook.call]
    cases hup : g.isConnected with
    | true =>
      rw [if_pos rfl, if_pos (show g.outlook.isUp = true from hup)]
      exact ⟨h, rfl, rfl, show ∀ step ∈ establishedSteps, _ by decide, rfl, rfl⟩
    | false =>
      rw [if_neg Bool.false_ne_true, if_neg (by rw [show g.outlook.isUp = false from hup]; simp)]
      exact begun_connect hprompt h
  | disconnect => exact begun_disconnect hprompt h
  | callback c =>
    refine ⟨h, rfl, rfl, announces_callbackSteps c, ?_, rfl⟩
    cases c <;> rfl

/-! ## 3. What is asked -/

omit [Transport σ] in
theorem IsSettled.activities {good : σ → Prop} {g : Gateway σ} (h : IsSettled good g) :
    g.activities = [] := by
  refine List.eq_nil_iff_forall_not_mem.2 fun e he => ?_
  obtain ⟨-, hd⟩ | ⟨s, hs, -⟩ := h.going.entries e he
  · rw [h.ready] at hd
    cases hd
  · cases hs

theorem Heads.withAgenda {good : σ → Prop} {aim : Aim} {effort : Nat} {g : Gateway σ}
    {sender : Option Sender} (h : Heads good aim effort g sender) {agenda : Agenda Strand}
    (hready : agenda.ready = g.agenda.ready) (halarms : agenda.alarms = g.agenda.alarms)
    (hnow : agenda.now = g.agenda.now) : Heads good aim effort { g with agenda } sender := by
  have hgoing : Going good { g with agenda } sender := by
    refine (h.going.mono fun k hk => ?_).of_parts rfl h.going.good h.going.pool rfl rfl
      (fun _ _ => rfl) rfl halarms hnow
    rw [hready]
    exact hk
  have houtlook : outlook { g with agenda } = g.outlook := by
    refine Outlook.ext rfl rfl rfl ?_
    show g.debouncer.window.map (fun w => w.closesAt.getD (agenda.now + w.length)) = _
    rw [hnow]
    rfl
  refine ⟨hgoing, hnow ▸ h.now, h.setting, ?_, ?_⟩
  · rw [← h.target, forecast, forecast, houtlook]
    rfl
  · have heffort := h.effort
    rw [Gateway.effort, weight] at heffort ⊢
    rw [hready, halarms]
    exact heffort

theorem turn_hold {good : σ → Prop} {g : Gateway σ} (h : IsSettled good g) (caller : Caller)
    (call : Call) (agenda : Agenda Strand) :
    let k := Strand.call caller
    let begun := beginCall call { g with agenda := agenda.silence k }
    turn k { g.hold k (.begins call) with agenda } = begun.2.2.run k begun.2.1 begun.1 := by
  intro k begun
  have hhold : g.hold k (.begins call) = { g with activities := [(k, .begins call)] } := by
    rw [hold, h.activities]
    rfl
  have hnone : [(k, Activity.begins call)].filter (·.1 != k) = g.activities := by
    rw [h.activities]
    simp
  have hdrop : drop k { g with activities := [(k, .begins call)], agenda } =
      { g with agenda := agenda.silence k } := by
    rw [drop, hnone]
  have hactivity : activity { g with activities := [(k, .begins call)], agenda } k =
      some (.begins call) := by
    simp [activity]
  rw [hhold, turn_eq rfl, hactivity]
  dsimp only
  rw [Gateway.begun, hdrop]

theorem heads_begin {good : σ → Prop} (hprompt : IsPrompt good) {g : Gateway σ}
    (h : IsSettled good g) {call : Call} (hcall : call.announces) (caller : Caller)
    {agenda : Agenda Strand} (halarms : agenda.alarms = g.agenda.alarms)
    (hnow : agenda.now = g.agenda.now) :
    ∃ effort sender, Heads good ⟨g.agenda.now, g.agenda.now, g.setting,
      (g.outlook.call g.transport g.setting call).lapse g.setting g.agenda.now⟩ effort
      (turn (.call caller) { g.hold (.call caller) (.begins call) with agenda }) sender := by
  let k := Strand.call caller
  let g' : Gateway σ := { g with agenda := agenda.silence k }
  -- Nobody else has anything to do, so the call begins at once.
  have hgoing : Going good g' none := by
    refine ⟨h.going.running, h.going.good, h.going.pool, h.going.keys, fun e he => ?_, nobody_sends,
      fun w hw => ?_, fun e he => ?_⟩
    · rw [h.activities] at he
      cases he
    · obtain ⟨t, hclose, halarm⟩ | ⟨hd, -⟩ := h.going.rings w hw
      · refine .inl ⟨t, hclose, List.mem_filter.2 ⟨halarms ▸ halarm, rfl⟩⟩
      · rw [h.ready] at hd
        cases hd
    · have he := h.going.alarms e (halarms ▸ (List.mem_filter.1 he).1)
      exact hnow ▸ he
  obtain ⟨hgoing', hsetting, hagenda, hannounces, hclears, houtlook⟩ :=
    begun_call hprompt hgoing hcall
  have houtlook' : g'.outlook = g.outlook := by
    refine Outlook.ext rfl rfl rfl ?_
    show g.debouncer.window.map (fun w => w.closesAt.getD (agenda.now + w.length)) = _
    rw [hnow]
    rfl
  have hnow' : (g'.beginCall call).2.2.agenda.now = g.agenda.now := by rw [hagenda]; exact hnow
  have hk : k.mayHand := rfl
  obtain ⟨sender, hheads⟩ := heads_run hprompt hk hannounces (g'.beginCall call).1
    hgoing' ⟨Nat.le_of_eq hnow'.symm, Nat.le_of_eq hnow'⟩ (.inr ⟨⟨caller, rfl⟩, hclears⟩)
  rw [houtlook'] at houtlook
  rw [turn_hold h caller call agenda]
  refine ⟨_, sender, { hheads with setting := hheads.setting.trans hsetting, target := ?_ }⟩
  refine hheads.target.trans ?_
  show forecast _ _ _ = _
  rw [forecast, hsetting]
  exact congrArg (fun o => Outlook.lapse g.setting g.agenda.now o) houtlook

omit [Transport σ] in
theorem turn_of_only {g : Gateway σ} {k : Strand} (h : g.agenda.ready = [k]) :
    ∃ agenda, g.agenda.next? = some (k, agenda) ∧ agenda.alarms = g.agenda.alarms ∧
      agenda.now = g.agenda.now := by
  cases hnext : g.agenda.next? with
  | none =>
    rw [Agenda.next?_eq_none_iff.1 hnext] at h
    cases h
  | some p =>
    have hturn : Agenda.TurnOf p.1 g.agenda p.2 := Agenda.turnOf_of_next? hnext
    have hdue := hturn.due
    rw [h, List.mem_singleton] at hdue
    refine ⟨p.2, ?_, hturn.alarms, hturn.now⟩
    rw [← hdue]

/-- A call had the first turn, and what was noted then stays. -/
def BeginsWith (caller : Caller) (call : Call) (g g' : Gateway σ) : Prop :=
  ∃ agenda : Agenda Strand,
    (turn (.call caller) { g.hold (.call caller) (.begins call) with agenda }).notes <+: g'.notes

/-- A gateway has settled after a call, with what the call comes to. -/
def SettledAfter (good : σ → Prop) (caller : Caller) (call : Call) (g g' : Gateway σ) : Prop :=
  SettledAs good g.setting
    ((g.outlook.call g.transport g.setting call).lapse g.setting g.agenda.now) g.agenda.now g' ∧
    BeginsWith caller call g g'

/-- A call that nobody waits for is alone, so that the first turn is its own. -/
theorem settled_ask_some {good : σ → Prop} (hprompt : IsPrompt good) {g : Gateway σ}
    (h : IsSettled good g) {call : Call} (hcall : call.announces) (name : String) :
    SettledAfter good (some name) call g (Timed.settle (g.ask (some name) call)) := by
  let k := Strand.call (some name)
  have hready : (g.ask (some name) call).agenda.ready = [k] := by
    show (g.agenda.wake k).ready = [k]
    rw [Agenda.wake, h.ready, if_neg List.not_mem_nil]
    rfl
  obtain ⟨agenda, hnext, halarms, hnow⟩ := turn_of_only hready
  have hwake : (g.agenda.wakeAll [k]).alarms = g.agenda.alarms ∧
      (g.agenda.wakeAll [k]).now = g.agenda.now := by
    rw [Agenda.wakeAll_eq]
    exact ⟨rfl, rfl⟩
  obtain ⟨effort, sender, hheads⟩ :=
    heads_begin hprompt h hcall (some name) (halarms.trans hwake.1) (hnow.trans hwake.2)
  have hfirst : Timed.next? (fun _ => false) (fun _ => false) (g.ask (some name) call) =
      some (turn k { g.hold k (.begins call) with agenda }) := by
    have hstep : Timed.step? (g.ask (some name) call) =
        some (turn k { g.hold k (.begins call) with agenda }) := by
      rw [Timed.step?]
      exact congrArg (Option.map _) hnext
    rw [Timed.next?, if_neg Bool.false_ne_true, hstep]
  rw [Timed.settle, Timed.drive_of_next? hfirst]
  obtain ⟨hsettled, hnotes⟩ := hheads.settle hprompt (g.ask (some name) call)
  exact ⟨hsettled, agenda, hnotes⟩

/-- Who waits for its call waits no longer than anybody does. -/
theorem settled_ask_none {good : σ → Prop} (hprompt : IsPrompt good) {g : Gateway σ}
    (h : IsSettled good g) {call : Call} (hcall : call.announces) :
    SettledAfter good none call g (Timed.settle (g.ask none call)) := by
  let k := Strand.call none
  let agenda : Agenda Strand := { g.agenda with foreground := some k, yielded := 0 }
  let leave (a : Agenda Strand) : Agenda Strand := { a with foreground := none }
  let begun : Gateway σ := turn k { g.hold k (.begins call) with agenda }
  let aim : Aim := ⟨g.agenda.now, g.agenda.now, g.setting,
    (g.outlook.call g.transport g.setting call).lapse g.setting g.agenda.now⟩
  obtain ⟨effort, sender, hheads⟩ :=
    heads_begin hprompt h hcall none (show agenda.alarms = g.agenda.alarms from rfl) rfl
  have hstays (g' : Gateway σ) (left : Nat) (sender' : Option Sender)
      (hg' : Heads good aim left g' sender') (hgoal : g'.isDone none = false)
      (hready : g'.agenda.ready = []) (time : Nat) (_ : true = true) : time ≤ g.agenda.now := by
    -- Nobody is left who could be waited for.
    exfalso
    obtain rfl := hg'.sender_eq_none hready
    rw [isDone, IsSettled.activities ⟨hg'.going, hready⟩] at hgoal
    cases hgoal
  obtain ⟨g', left, sender', hdrive, hheads', -⟩ :=
    heads_drive (·.isDone none) (fun _ => true) hprompt hheads hstays
  have hask : g.ask none call = Timed.plan leave g' := by
    have hawait : g.ask none call = Timed.plan leave
        ((Timed.drive (·.isDone none) (fun _ => true) begun).getD begun) := rfl
    rw [hawait, hdrive]
    rfl
  rw [hask]
  have hleft : Heads good aim left (Timed.plan leave g') sender' := hheads'.withAgenda rfl rfl rfl
  obtain ⟨hsettled, hnotes⟩ := hleft.settle hprompt (Timed.plan leave g')
  exact ⟨hsettled, agenda, (follows_notes.drive hdrive).trans hnotes⟩

/-- **A call leaves a gateway settled with what it comes to.** -/
theorem settled_ask {good : σ → Prop} (hprompt : IsPrompt good) {g : Gateway σ}
    (h : IsSettled good g) {call : Call} (hcall : call.announces) (caller : Caller) :
    SettledAfter good caller call g (Timed.settle (g.ask caller call)) := by
  cases caller with
  | some name => exact settled_ask_some hprompt h hcall name
  | none => exact settled_ask_none hprompt h hcall

/-! ## 4. What comes first -/

/-- A call comes with a new connection, or is told of one. -/
def Call.establishes (t : σ) : Call → Bool
  | .start => Transport.isConnected t || connects t
  | .connect => connects t
  | .callback c => c == .established
  | _ => false

theorem beginConnect_connects {g : Gateway σ} (h : connects g.transport = true) :
    ∃ transport, g.beginConnect =
      (nothing, callbackSteps .established, { g with transport, state := .connecting }) := by
  rw [connects] at h
  split at h
  · next heq =>
    refine ⟨(Transport.connect g.transport).2, ?_⟩
    rw [beginConnect]
    dsimp only
    rw [heq]
  · cases h

theorem beginCall_establishes {g : Gateway σ} (hrunning : g.stopping = false) {call : Call}
    (h : call.establishes g.transport = true) :
    ∃ result more transport state,
      g.beginCall call = (result, establishedSteps ++ more, { g with transport, state }) := by
  have hconnect (h : connects g.transport = true) :
      ∃ result more transport state,
        g.beginConnect = (result, establishedSteps ++ more, { g with transport, state }) := by
    obtain ⟨transport, heq⟩ := beginConnect_connects h
    exact ⟨_, [.tell .established], transport, _, heq⟩
  cases call with
  | start =>
    rw [beginCall, if_neg (by rw [hrunning]; exact Bool.false_ne_true)]
    by_cases hup : g.isConnected = true
    · exact ⟨nothing, [], g.transport, g.state, if_pos hup⟩
    · rw [if_neg hup]
      exact hconnect ((Bool.or_eq_true_iff.1 h).resolve_left hup)
  | connect =>
    rw [beginCall, if_neg (by rw [hrunning]; exact Bool.false_ne_true)]
    exact hconnect h
  | callback c =>
    obtain rfl := eq_of_beq h
    exact ⟨nothing, [.tell .established], g.transport, g.state, rfl⟩
  | disconnect | shutDown | publish => cases h

omit [Transport σ] in
theorem notes_hold (strand : Strand) (activity : Activity) (hold : Hold) (g : Gateway σ) :
    g.notes <+: ((g.hold strand activity).setAlarm strand hold).notes :=
  ((spares_hold strand g activity).trans (spares_setAlarm ..)).notes

theorem notes_run_certificate (strand : Strand) (kind : CertificateKind) (rest : List Step)
    (result : Result) (g : Gateway σ) :
    (g.deliver (g.certificate kind) false).2.notes <+:
      (g.run strand (.certificate kind :: rest) result).notes := by
  rcases run_certificate strand kind rest result g with ⟨hold, heq⟩ | ⟨result', heq⟩
  · rw [heq]
    exact notes_hold ..
  · rw [heq]
    exact (spares_run ..).notes

/-- A new connection is announced before anything else is done. -/
theorem notes_run_established {g : Gateway σ} (hplaces : places g.options .birth = true)
    (strand : Strand) (more : List Step) (result : Result) :
    ∃ taken, g.notes ++ [.published (g.certified .birth) taken] <+:
      (g.run strand (establishedSteps ++ more) result).notes := by
  let entered : Gateway σ := { g with state := .connected, debouncer := g.debouncer.cancel }
  let rest : List Step := [.reconcile true, .resubscribe] ++ more
  have hrun : g.run strand (establishedSteps ++ more) result =
      entered.run strand (.certificate .birth :: rest) nothing := rfl
  have hhanded := notes_run_certificate strand .birth rest nothing entered
  have hcertified : entered.certified .birth = g.certified .birth := rfl
  rw [deliver_certificate (g := entered) hplaces,
    (handed_handTracked (entered.certified .birth) entered).notes, hcertified] at hhanded
  rw [hrun]
  exact ⟨_, hhanded⟩

/-- **A call that comes with a new connection announces the gateway before it does anything
else.** -/
theorem BeginsWith.published {good : σ → Prop} {g g' : Gateway σ} (h : IsSettled good g)
    (hplaces : places g.options .birth = true) {caller : Caller} {call : Call}
    (hcall : call.establishes g.transport = true) (hbegins : BeginsWith caller call g g') :
    ∃ taken, g.notes ++ [.published (g.certified .birth) taken] <+: g'.notes := by
  obtain ⟨agenda, hnotes⟩ := hbegins
  obtain ⟨result, more, transport, state, heq⟩ := beginCall_establishes
    (g := { g with agenda := agenda.silence (.call caller) }) h.going.running hcall
  rw [turn_hold h caller call agenda, heq] at hnotes
  obtain ⟨taken, hfirst⟩ := notes_run_established (g := { g with
    agenda := agenda.silence (.call caller), transport, state }) hplaces (.call caller) more result
  exact ⟨taken, hfirst.trans hnotes⟩

/-! ## 5. What is told -/

theorem settled_settle {good : σ → Prop} (hprompt : IsPrompt good) {g : Gateway σ}
    (h : Going good g none) :
    SettledAs good g.setting (g.outlook.lapse g.setting g.agenda.now) g.agenda.now
      (Timed.settle g) := by
  have hheads : Heads good (g.aim g.agenda.now g.agenda.now []) (g.effort []) g none :=
    ⟨h, ⟨Nat.le_refl _, Nat.le_refl _⟩, rfl, rfl, Nat.le_refl _⟩
  exact (hheads.settle hprompt g).1

theorem settled_pass {good : σ → Prop} (hprompt : IsPrompt good) {g : Gateway σ}
    (h : Going good g none) (ms : Nat) :
    SettledAs good g.setting (g.outlook.lapse g.setting (g.agenda.now + ms)) (g.agenda.now + ms)
      (Timed.pass ms g) := by
  have hheads : Heads good (g.aim g.agenda.now (g.agenda.now + ms) []) (g.effort []) g none :=
    ⟨h, ⟨Nat.le_refl _, Nat.le_add_right _ _⟩, rfl, rfl, Nat.le_refl _⟩
  exact hheads.pass hprompt

/-- A certificate is kept as the last of its kind, and everything that is kept is due later. -/
def Outlook.keep (kind : CertificateKind) (m : Message) (closesAt : Nat) (o : Outlook) : Outlook :=
  { o with kept := fun k => if k = kind then some m else o.kept k, closesAt := some closesAt }

theorem outlook_schedule (kind : CertificateKind) (g : Gateway σ) :
    (g.schedule kind).outlook = g.outlook.keep kind (g.setting.certificate kind)
      (g.agenda.now + g.options.republishDelayMs) := by
  refine Outlook.ext rfl rfl rfl ?_
  show some ((g.agenda.wakeAll _).now + _) = _
  rw [Agenda.wakeAll_eq]
  rfl

omit [Transport σ] in
theorem going_schedule {good : σ → Prop} {g : Gateway σ} (h : Going good g none)
    (kind : CertificateKind) : Going good (g.schedule kind) none := by
  have halarms : (g.schedule kind).agenda.alarms = g.agenda.alarms ∧
      (g.schedule kind).agenda.now = g.agenda.now := by
    show (g.agenda.wakeAll _).alarms = _ ∧ (g.agenda.wakeAll _).now = _
    rw [Agenda.wakeAll_eq]
    exact ⟨rfl, rfl⟩
  have hready {k : Strand} (hk : k ∈ g.agenda.ready) : k ∈ (g.schedule kind).agenda.ready :=
    Agenda.mem_ready_wakeAll.2 (.inl hk)
  refine ⟨h.running, h.good, h.pool, h.keys, fun e he => ?_, nobody_sends, fun w hw => ?_, ?_⟩
  · exact (h.entries e he).imp_left (And.imp_right hready)
  · -- The window that was running is left to its turn, which finds it stopped.
    cases hw
    exact .inr ⟨Agenda.mem_ready_wakeAll.2 (.inr (List.mem_singleton.2 rfl)), nofun⟩
  · rw [halarms.1, halarms.2]
    exact h.alarms

end Uplink.Gateway
