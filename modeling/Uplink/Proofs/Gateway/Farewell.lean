import Uplink.Proofs.Gateway.Outlook
import Uplink.Proofs.Gateway.Events

/-!
# After the leave

A gateway that takes its leave drops what it keeps for later. It does not take back what a window
that was over has already begun to hand over, message by message: as long as the transport takes
messages, the rest of it follows. The module says when nothing of the kind comes after the leave.
-/

namespace Uplink

/-- A message without a destination, whatever the options are. -/
def Message.isLost (m : Message) : Bool :=
  match m.destination with
  | .full topic => topic.isEmpty
  | .app id _ _ _ => id.isEmpty

theorem Message.resolve_of_isLost {m : Message} (h : m.isLost = true) (o : Options) :
    ∃ fault, m.destination.resolve o = .error fault := by
  rw [isLost] at h
  cases hdestination : m.destination with
  | full topic =>
    rw [hdestination] at h
    exact ⟨.emptyTopic, if_pos h⟩
  | app id topic control device =>
    rw [hdestination] at h
    exact ⟨.emptyApp, if_pos h⟩

theorem Message.resolve_of_not_isLost {m : Message} (h : m.isLost = false) (o : Options) :
    ∃ topic, m.destination.resolve o = .ok topic := by
  rw [isLost] at h
  cases hdestination : m.destination with
  | full topic =>
    rw [hdestination] at h
    exact ⟨topic, if_neg (Bool.eq_false_iff.1 h)⟩
  | app id topic control device =>
    rw [hdestination] at h
    exact ⟨_, if_neg (Bool.eq_false_iff.1 h)⟩

namespace Gateway

variable {σ : Type} [Transport σ]

/-! ## 1. What windows hand over -/

/-- A window that is over hands messages over one after the other, and waits in between. -/
def Activity.IsFlush (a : Activity) : Prop :=
  ∃ ticket id deadline, ∃ messages : List Message,
    a = .waits (.delivery ticket id deadline) (messages.map .flush)

theorem waits_of_handTracked {message : Outbound} {g : Gateway σ} {hold : Hold}
    (h : (g.handTracked message).1 = .waits hold) :
    ∃ ticket id deadline, hold = .delivery ticket id deadline := by
  unfold handTracked at h
  dsimp only at h
  split at h
  · cases h
  · split at h
    · cases h
    · cases h
      exact ⟨_, _, _, rfl⟩

/-- A message that is flushed is passed over or handed over, and then waited for at most. -/
theorem take_flush_cases (m : Message) (g : Gateway σ) :
    ((g.stopping = true ∨ m.isLost = true) ∧
      ∃ result, g.take (.flush m) = (.goesOn result, g)) ∨
    ((g.stopping = false ∧ m.isLost = false) ∧
      ∃ out, g.take (.flush m) = g.handTracked out) := by
  by_cases hstopping : g.stopping = true
  · exact .inl ⟨.inl hstopping, nothing, by rw [take, if_pos hstopping]⟩
  · rw [take, if_neg hstopping, deliver]
    cases hlost : m.isLost with
    | true =>
      obtain ⟨fault, hresolve⟩ := Message.resolve_of_isLost hlost g.options
      exact .inl ⟨.inr rfl, _, by rw [hresolve]⟩
    | false =>
      obtain ⟨topic, hresolve⟩ := Message.resolve_of_not_isLost hlost g.options
      let out : Outbound :=
        ⟨topic, g.options.encodePayload m.payload, m.qos, m.retain, m.priority⟩
      exact .inr ⟨⟨Bool.eq_false_iff.2 hstopping, rfl⟩, out, by rw [hresolve]; rfl⟩

theorem activity_run_flush {n : Nat} {messages : List Message} {result : Result} {g : Gateway σ}
    {a : Activity}
    (h : (g.run (.window n) (messages.map .flush) result).activity (.window n) = some a) :
    ∃ ticket id deadline rest, rest <:+ messages ∧
      a = .waits (.delivery ticket id deadline) (rest.map .flush) := by
  induction messages generalizing result g with
  | nil => simp [run, finish] at h
  | cons m messages ih =>
    rw [List.map_cons, run] at h
    split at h
    · obtain ⟨ticket, id, deadline, rest, hrest, ha⟩ := ih h
      exact ⟨ticket, id, deadline, rest, hrest.trans (List.suffix_cons m messages), ha⟩
    · next hold g' heq =>
      rw [activity_setAlarm, activity_hold, if_pos rfl] at h
      cases h
      -- Who is passed over does not wait.
      obtain ⟨-, result, htake⟩ | ⟨-, out, htake⟩ := take_flush_cases m g
      · rw [htake] at heq
        cases heq
      · rw [htake] at heq
        obtain ⟨ticket, id, deadline, rfl⟩ := waits_of_handTracked (congrArg Prod.fst heq)
        exact ⟨ticket, id, deadline, messages, List.suffix_cons m messages, rfl⟩

omit [Transport σ] in
theorem handed_finish (strand : Strand) (result : Result) (g : Gateway σ) :
    (g.finish strand result).handed = g.handed := by
  unfold finish
  split <;> rfl

omit [Transport σ] in
theorem handed_setAlarm (strand : Strand) (hold : Hold) (g : Gateway σ) :
    (g.setAlarm strand hold).handed = g.handed := by
  obtain ⟨agenda, heq⟩ := setAlarm_eq strand hold g
  rw [heq]
  rfl

theorem handed_run_flush_of_spent {n : Nat} {messages : List Message} {result : Result}
    {g : Gateway σ} (h : g.stopping = true ∨ ∀ m ∈ messages, m.isLost = true) :
    (g.run (.window n) (messages.map .flush) result).handed = g.handed := by
  induction messages generalizing result with
  | nil => exact handed_finish ..
  | cons m messages ih =>
    obtain ⟨-, result, htake⟩ | ⟨⟨hrunning, hplaced⟩, -⟩ := take_flush_cases m g
    · rw [List.map_cons, run, htake]
      exact ih (h.imp_right fun hlost m hm => hlost m (List.mem_cons_of_mem _ hm))
    · obtain hstopping | hlost := h
      · rw [hrunning] at hstopping
        cases hstopping
      · rw [hlost m List.mem_cons_self] at hplaced
        cases hplaced

omit [Transport σ] in
theorem handed_prefix_of_notes {g g' : Gateway σ} (h : g.notes <+: g'.notes) :
    g.handed <+: g'.handed :=
  h.filterMap _

theorem handed_eq_of_handed {message : Outbound} {g g' : Gateway σ} (h : Handed message g g') :
    g'.handed = g.handed ++ [(message, (Transport.publish message g.transport).1.isOk)] := by
  rw [Gateway.handed, h.notes, List.filterMap_append]
  rfl

theorem handed_run_flush {n : Nat} {messages : List Message} {result : Result} {g : Gateway σ}
    (hrunning : g.stopping = false) {m : Message} (hm : m ∈ messages) (hplaced : m.isLost = false) :
    ∃ out, g.handed ++ [(out, (Transport.publish out g.transport).1.isOk)] <+:
      (g.run (.window n) (messages.map .flush) result).handed := by
  induction messages generalizing result with
  | nil => cases hm
  | cons first messages ih =>
    rw [List.map_cons, run]
    obtain ⟨hspent, result, htake⟩ | ⟨-, out, htake⟩ := take_flush_cases first g
    · have hlost : first.isLost = true := by simpa [hrunning] using hspent
      -- The first message is passed over, so that it is not the one with a place to go to.
      have hrest : m ∈ messages := by
        rcases List.mem_cons.1 hm with rfl | hrest
        · rw [hplaced] at hlost
          cases hlost
        · exact hrest
      rw [htake]
      exact ih hrest
    · have hhanded := handed_eq_of_handed (handed_handTracked out g)
      rw [← htake] at hhanded
      refine ⟨out, hhanded ▸ ?_⟩
      split
      · next result g' heq =>
        rw [heq]
        exact handed_prefix_of_notes (spares_run ..).notes
      · next hold g' heq =>
        rw [heq, handed_setAlarm]
        exact List.prefix_rfl

/-! ## 2. Windows under way -/

/-- Whatever windows are about is to hand messages over. -/
def WindowsFlush (g : Gateway σ) : Prop :=
  ∀ n a, g.activity (.window n) = some a → a.IsFlush

/-- A window that is over is going to hand a message over. -/
def IsUnderWay (g : Gateway σ) (m : Message) : Prop :=
  ∃ n ticket id deadline, ∃ messages : List Message, m ∈ messages ∧
    g.activity (.window n) = some (.waits (.delivery ticket id deadline) (messages.map .flush))

omit [Transport σ] in
theorem poll_isSome (t : Delivery.Tracker) (ticket : Delivery.Ticket) {deadline now : Nat}
    (h : deadline ≤ now) : (t.poll ticket deadline now).1.isSome = true := by
  rw [Delivery.Tracker.poll]
  split
  · rfl
  · rw [if_pos h]
    rfl

theorem turn_window_of_waits {g : Gateway σ} {n id deadline : Nat} {ticket : Delivery.Ticket}
    {rest : List Step}
    (ha : g.activity (.window n) = some (.waits (.delivery ticket id deadline) rest)) :
    g.turn (.window n) =
      let (outcome, tracker) := g.tracker.poll ticket deadline g.agenda.now
      match outcome with
      | some outcome =>
        ((g.track tracker).drop (.window n)).run (.window n) rest (.ok (some (id, outcome)))
      | none => g.track tracker := by
  rw [turn_eq rfl, ha]
  rfl

/-- In its turn, a window leaves everything as it is, or it hands over what was left of its messages
or, if it has just come to its end, what is kept. -/
theorem turn_window {g : Gateway σ} (h : g.WindowsFlush) (n : Nat) :
    ((g.turn (.window n)).activity (.window n) = g.activity (.window n) ∧
      (g.turn (.window n)).handed = g.handed) ∨
    ∃ (messages : List Message) (result : Result) (g₀ : Gateway σ),
      g.turn (.window n) = g₀.run (.window n) (messages.map .flush) result ∧
      g₀.handed = g.handed ∧ g₀.stopping = g.stopping ∧
      ((∀ m ∈ messages, g.IsUnderWay m) ∨ messages = g.debouncer.batch.map (·.2)) := by
  cases ha : g.activity (.window n) with
  | none =>
    rw [turn_eq rfl, ha]
    dsimp only
    rw [turnOf]
    split
    · exact .inl ⟨ha, rfl⟩
    · exact .inl ⟨ha, rfl⟩
    · next debouncer heq =>
      -- The window has come to its end: what is kept is handed over now.
      have hbatch : debouncer.batch = g.debouncer.batch := by
        have hkept := Debouncer.kept_glance n g.agenda.now g.debouncer
        rw [heq] at hkept
        rw [Debouncer.batch, Debouncer.batch, hkept]
      refine .inr ⟨debouncer.batch.map (·.2), nothing,
        { g with debouncer := debouncer.flushed }, ?_, rfl, rfl, .inr (by rw [hbatch])⟩
      rw [List.map_map]
      rfl
  | some a =>
    obtain ⟨ticket, id, deadline, messages, rfl⟩ := h n a ha
    rw [turn_window_of_waits ha]
    dsimp only
    -- It learned of the last message that it handed over, or goes on waiting for it.
    split
    · exact .inr ⟨messages, _, _, rfl, rfl, rfl,
        .inl fun m hm => ⟨n, ticket, id, deadline, messages, hm, ha⟩⟩
    · exact .inl ⟨ha, rfl⟩

theorem window_apply {g : Gateway σ} {n : Nat} {e : Event σ} (he : e ≠ .turn (.window n)) :
    (e.apply g).activity (.window n) = g.activity (.window n) :=
  activity_apply_eq he nofun nofun g

theorem windowsFlush_apply {g : Gateway σ} (h : g.WindowsFlush) (e : Event σ) :
    (e.apply g).WindowsFlush := by
  intro n a ha
  by_cases he : e = .turn (.window n)
  · subst he
    obtain ⟨hsame, -⟩ | ⟨messages, result, g₀, hturn, -⟩ := turn_window h n
    · exact h n a (hsame.symm.trans ha)
    · obtain ⟨ticket, id, deadline, rest, -, heq⟩ :=
        activity_run_flush (hturn ▸ (show (g.turn _).activity _ = some a from ha))
      exact ⟨ticket, id, deadline, rest, heq⟩
  · exact h n a ((window_apply he).symm.trans ha)

/-- While nothing is kept for later, nothing more gets under way. -/
theorem isUnderWay_of_apply {g : Gateway σ} (h : g.WindowsFlush)
    (hpending : g.debouncer.pending = []) {e : Event σ} {m : Message}
    (hm : (e.apply g).IsUnderWay m) : g.IsUnderWay m := by
  obtain ⟨n, ticket, id, deadline, messages, hmem, ha⟩ := hm
  by_cases he : e = .turn (.window n)
  · subst he
    change (g.turn (.window n)).activity (.window n) = _ at ha
    obtain ⟨hsame, -⟩ | ⟨all, result, g₀, hturn, -, -, hfrom⟩ := turn_window h n
    · exact ⟨n, ticket, id, deadline, messages, hmem, hsame.symm.trans ha⟩
    · rw [hturn] at ha
      obtain ⟨ticket', id', deadline', rest, hrest, heq⟩ := activity_run_flush ha
      obtain ⟨-, hsteps⟩ := Activity.waits.inj heq
      have hlists : messages = rest :=
        (List.map_inj_right fun _ _ hflush => Step.flush.inj hflush).1 hsteps
      have hall : m ∈ all := hrest.subset (hlists ▸ hmem)
      obtain hunder | hbatch := hfrom
      · exact hunder m hall
      · rw [hbatch, List.map_eq_nil_iff.1 hpending] at hall
        cases hall
  · exact ⟨n, ticket, id, deadline, messages, hmem, (window_apply he).symm.trans ha⟩

/-! ## 3. The last word -/

def Strand.isWindow : Strand → Bool
  | .window _ => true
  | _ => false

/-- The transport takes a birth or a list of applications: from a window, or on a new connection. -/
def Event.proclaims (g : Gateway σ) : Event σ → Bool
  | .turn strand =>
    (strand.isWindow || g.deed strand == .opens) &&
      ((g.turn strand).handed.drop g.handed.length).any (·.2)
  | _ => false

def isUnprompted : List (Event σ) → Gateway σ → Bool
  | [], _ => true
  | e :: events, g =>
    g.debouncer.pending.isEmpty && !e.opens g && isUnprompted events (e.apply g)

/-- In the course of the events, the gateway says that it is there. -/
def proclaims : List (Event σ) → Gateway σ → Bool
  | [], _ => false
  | e :: events, g => e.proclaims g || proclaims events (e.apply g)

/-- Nothing that is under way will be handed over. -/
def IsSpent (g : Gateway σ) : Prop := g.stopping = true ∨ ∀ m, g.IsUnderWay m → m.isLost = true

theorem isSpent_apply {g : Gateway σ} (hw : g.WindowsFlush)
    (hpending : g.debouncer.pending = []) (h : g.IsSpent) (e : Event σ) : (e.apply g).IsSpent :=
  h.imp (stopping_apply · e) fun hlost m hm => hlost m (isUnderWay_of_apply hw hpending hm)

theorem handed_turn_window {g : Gateway σ} (hw : g.WindowsFlush)
    (hpending : g.debouncer.pending = []) (h : g.IsSpent) (n : Nat) :
    (g.turn (.window n)).handed = g.handed := by
  obtain ⟨-, hsame⟩ | ⟨messages, result, g₀, hturn, hhanded, hstopping, hfrom⟩ := turn_window hw n
  · exact hsame
  · rw [hturn, ← hhanded]
    refine handed_run_flush_of_spent (h.imp (fun hs => hstopping.trans hs) fun hlost m hm => ?_)
    obtain hunder | hbatch := hfrom
    · exact hlost m (hunder m hm)
    · rw [hbatch, List.map_eq_nil_iff.1 hpending] at hm
      cases hm

/-- Where nothing is under way, only what is asked for afterwards makes the gateway say that it is
there. -/
theorem proclaims_of_isSpent {g : Gateway σ} (hw : g.WindowsFlush) (h : g.IsSpent)
    {events : List (Event σ)} (hevents : isUnprompted events g = true) :
    proclaims events g = false := by
  induction events generalizing g with
  | nil => rfl
  | cons e events ih =>
    rw [isUnprompted, Bool.and_eq_true, Bool.and_eq_true, List.isEmpty_iff, Bool.not_eq_true']
      at hevents
    obtain ⟨⟨hpending, hopens⟩, hevents⟩ := hevents
    have hspent := isSpent_apply hw hpending h e
    rw [proclaims, ih (windowsFlush_apply hw e) hspent hevents, Bool.or_false]
    cases e with
    | turn strand =>
      rw [Event.opens] at hopens
      rw [Event.proclaims, hopens, Bool.or_false]
      cases strand with
      | window n =>
        rw [handed_turn_window hw hpending h n, List.drop_length]
        rfl
      | _ => rfl
    | _ => rfl

/-- What is under way goes on when its time is up, as long as the transport takes messages. -/
theorem proclaims_of_isUnderWay {g : Gateway σ}
    (hopen : ∀ out, (Transport.publish out g.transport).1.isOk = true)
    (hrunning : g.stopping = false) (hpending : g.debouncer.pending = []) {m : Message}
    (hm : g.IsUnderWay m) (hplaced : m.isLost = false) :
    ∃ events, isUnprompted events g = true ∧ proclaims events g = true := by
  obtain ⟨n, ticket, id, deadline, messages, hmem, ha⟩ := hm
  -- Once the time is up the window stops waiting, whatever was acknowledged.
  let late : Gateway σ := { g with agenda := { g.agenda with now := max g.agenda.now deadline } }
  have hdeed : late.deed (.window n) = .nothing := by
    obtain ⟨first, rest, rfl⟩ := List.exists_cons_of_ne_nil (List.ne_nil_of_mem hmem)
    rw [deed, show late.activity (.window n) = _ from ha, List.map_cons]
  have hover := poll_isSome late.tracker ticket (Nat.le_max_right g.agenda.now deadline)
  obtain ⟨outcome, houtcome⟩ := Option.isSome_iff_exists.1 hover
  let after : Gateway σ :=
    (late.track (late.tracker.poll ticket deadline late.agenda.now).2).drop (.window n)
  have hturn : late.turn (.window n) =
      after.run (.window n) (messages.map .flush) (.ok (some (id, outcome))) := by
    rw [turn_window_of_waits (show late.activity (.window n) = _ from ha)]
    dsimp only
    rw [houtcome]
  have hhands : ∃ out, after.handed ++ [(out, (Transport.publish out g.transport).1.isOk)] <+:
      (late.turn (.window n)).handed := by
    rw [hturn]
    exact handed_run_flush hrunning hmem hplaced
  have htaken : ((late.turn (.window n)).handed.drop late.handed.length).any (·.2) = true := by
    obtain ⟨out, more, hmore⟩ := hhands
    rw [← hmore, hopen out, List.append_assoc, show late.handed = after.handed from rfl,
      List.drop_left]
    rfl
  have hplan : (Event.plan late.agenda).apply g = late := rfl
  refine ⟨[.plan late.agenda, .turn (.window n)], ?_, ?_⟩
  · have hpending' : late.debouncer.pending = [] := hpending
    simp [isUnprompted, hplan, Event.opens, hdeed, hpending, hpending']
  · simp [proclaims, hplan, Event.proclaims, Strand.isWindow, htaken]

theorem pending_turn_of_leaves {g : Gateway σ} (hs : g.Sound) {strand : Strand}
    (h : g.deed strand = .leaves) : (g.turn strand).debouncer.pending = [] := by
  obtain ⟨call, ha, hdeed⟩ := begins_of_deed (.inr h)
  obtain ⟨-, -, -, hopening, hturn⟩ := turn_begins hs ha
  rw [h] at hdeed
  rw [hturn]
  generalize (g.begun strand call).2.2 = b, (g.begun strand call).2.1 = steps at *
  cases hopening with
  | quiet _ hq =>
    rw [hq] at hdeed
    cases hdeed
  | opens => cases hdeed
  | @leaves more hmore =>
    -- What was kept is dropped before the certificate, and none of the steps keeps anything.
    let g₀ : Gateway σ := { b with state := .disconnecting, debouncer := b.debouncer.cancel }
    have hkept := (spares_run strand g₀ (.certificate .disconnect :: more) nothing).kept
    exact Debouncer.pending_eq_nil_iff.2 fun kind => hkept kind rfl

/-- **The leave is the last word exactly when no flush is under way.** A gateway takes its leave
while the transport takes messages. Then, whatever happens next, as long as no new connection is
announced and nothing is kept for later, it does not say that it is there, if and only if it is
stopping or no window has a message left that has a place to go to. -/
theorem leave_is_final_iff {options : Options} {transport : σ} {device : Device} {clock : Clock}
    {verifier : Option (Topic → Payload → Bool)} {g : Gateway σ}
    (hcreate : create options transport device clock verifier = .ok g) (before : List (Event σ))
    {strand : Strand} (hleaves : (g.after before).deed strand = .leaves)
    (hopen : ∀ out,
      (Transport.publish out ((g.after before).turn strand).transport).1.isOk = true) :
    let g' := (g.after before).turn strand
    (∀ events, isUnprompted events g' = true → proclaims events g' = false) ↔
      g'.stopping = true ∨ ∀ m, g'.IsUnderWay m → m.isLost = true := by
  intro g'
  have hnew := isNew_of_create hcreate
  have hs : (g.after before).Sound := sound_after hnew.sound before
  have hw : (g.after before).WindowsFlush := by
    refine after_induction before (fun n a ha => ?_) fun _ e h => windowsFlush_apply h e
    rw [activity, hnew.activities] at ha
    cases ha
  have hw' : g'.WindowsFlush := windowsFlush_apply hw (.turn strand)
  constructor
  · -- A message that is under way and has a place to go to would be handed over.
    intro hfinal
    by_cases hstopping : g'.stopping = true
    · exact .inl hstopping
    · refine .inr fun m hunder => ?_
      by_cases hlost : m.isLost = true
      · exact hlost
      · obtain ⟨events, hevents, hnews⟩ := proclaims_of_isUnderWay hopen (by simpa using hstopping)
          (pending_turn_of_leaves hs hleaves) hunder (by simpa using hlost)
        rw [hfinal events hevents] at hnews
        cases hnews
  · exact fun hspent events hevents => proclaims_of_isSpent hw' hspent hevents

/-! ## 4. Late news -/

theorem isOk_publish_loopback {l : Loopback} (hup : l.connected = true)
    (hworks : l.failsPublish = false) (out : Outbound) :
    (Transport.publish out l).1.isOk = true := by
  show (Loopback.publish out l).1.isOk = true
  rw [Loopback.publish, hup, hworks]
  rfl

/-- A gateway on a connection that is up. What it publishes is acknowledged by and by. -/
def patient : Gateway Loopback :=
  { loopback with transport := { connected := true, acknowledges := false } }

def announcing : List (Event Loopback) :=
  [.ask (some "start") .start, .turn (.call (some "start")), .acknowledge 1 "birth" .confirmed,
    .turn (.call (some "start"))]

/-- Two certificates are kept until their window is over. The first of them is handed over. -/
def flushing : List (Event Loopback) :=
  [.registerApplication "a", .platform (.packageInstalled "p"), .turn (.window 3),
    .plan { now := 30000 }, .turn (.window 3)]

def parting : List (Event Loopback) := [.ask (some "leave") .disconnect]

/-- The leave is the last word of a gateway that has nothing else to hand over. -/
theorem leave_is_final_after_announcing :
    let before := announcing ++ parting
    let g' := (patient.after before).turn (.call (some "leave"))
    (create {} { connected := true, acknowledges := false } {} .epoch none = .ok patient ∧
      (patient.after before).deed (.call (some "leave")) = .leaves ∧
      ∀ out, (Transport.publish out g'.transport).1.isOk = true) ∧
    ((∀ events, isUnprompted events g' = true → proclaims events g' = false) ↔
      g'.stopping = true ∨ ∀ m, g'.IsUnderWay m → m.isLost = true) ∧
    ∀ events, isUnprompted events g' = true → proclaims events g' = false := by
  intro before g'
  have hcreate : create {} { connected := true, acknowledges := false } {} .epoch none =
      .ok patient := rfl
  have hleaves : (patient.after before).deed (.call (some "leave")) = .leaves := by decide +kernel
  have hopen : ∀ out, (Transport.publish out g'.transport).1.isOk = true :=
    isOk_publish_loopback (by decide +kernel) (by decide +kernel)
  have hiff := leave_is_final_iff hcreate before hleaves hopen
  refine ⟨⟨hcreate, hleaves, hopen⟩, hiff, hiff.2 (.inr fun m hm => ?_)⟩
  -- Nobody but the caller is active.
  obtain ⟨n, ticket, id, deadline, messages, -, ha⟩ := hm
  have hwindows : g'.activities.all (fun e => !e.1.isWindow) = true := by decide +kernel
  obtain ⟨front, back, hactivities, -⟩ := List.lookup_eq_some_iff.1 ha
  rw [hactivities] at hwindows
  simp [Strand.isWindow] at hwindows

/-- **The leave need not be the last word.** A list of applications that is under way follows it.
And while the leave waits for its acknowledgement, the transport still counts as connected, so that
a new application has its list announced after the window. -/
theorem leave_is_not_final :
    let g' := (patient.after (announcing ++ flushing ++ parting)).turn (.call (some "leave"))
    let g'' := (patient.after (announcing ++ parting)).turn (.call (some "leave"))
    (patient.after (announcing ++ flushing ++ parting)).deed (.call (some "leave")) = .leaves ∧
    isUnprompted [.turn (.window 3)] g' = true ∧ proclaims [.turn (.window 3)] g' = true ∧
    (patient.after (announcing ++ parting)).deed (.call (some "leave")) = .leaves ∧
    proclaims [.registerApplication "a", .turn (.window 3), .plan { now := 30000 },
      .turn (.window 3)] g'' = true := by
  decide +kernel

end Gateway

end Uplink
