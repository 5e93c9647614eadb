import Uplink.Proofs.Gateway.Farewell
import Uplink.Proofs.Gateway.Routing
import Uplink.Proofs.Request.Answers
import Uplink.Proofs.Request.Outcomes

/-!
# Who is answered

Requests are worked at side by side, and their handlers come to their ends in any order. The module
keeps a ledger beside a history: the requests that were taken, when their handlers come to their
ends, which of them have done so, and what was handed to the transport. All that the ledger looks at
in the gateway itself is the clock and which jobs were stopped. Each request that says who asked and
under which id is answered once, with the outcome of its own handler.
-/

namespace Uplink

namespace Gateway

/-! ## 1. The ledger -/

/-- A request that was taken, and the handler that it was given to. -/
structure Asked where
  clock : Clock
  handler : Handler
  context : Request.Context
  payload : Payload

namespace Asked

/-- The answer to a request as it is handed to the transport. There is none if the request does not
say who asked or under which id, or if its handler fails. -/
def answer? (a : Asked) (o : Options) : Option Outbound :=
  match a.context.requester, a.context.requestId, a.handler.answer a.context a.payload with
  | some requester, some id, some outcome =>
    some { topic := Request.answerTopic o requester a.context.app id
           payload := o.encodePayload (Request.answer a.clock.now outcome)
           qos := .atLeastOnce, retain := false, priority := 5 }
  | _, _, _ => none

def steps (a : Asked) : List Step := requestSteps a.clock a.handler a.context a.payload

/-- What is left of the job when the handler has come to its end. -/
def answering (a : Asked) : List Step :=
  (((a.handler.answer a.context a.payload).bind (Request.reply a.clock.now a.context)).map
    .publish).toList

theorem steps_eq (a : Asked) :
    a.steps = .note (.requested a.handler.name a.context a.payload) ::
      .pause a.handler.delayMs :: a.answering := rfl

/-- There is nothing left to do, or a message to be published at least once. -/
theorem answering_cases {a : Asked} (happ : a.context.app ≠ "") (o : Options) :
    (a.answer? o = none ∧ a.answering = []) ∨
    ∃ message topic, a.answering = [.publish message] ∧ message.qos = .atLeastOnce ∧
      message.destination.resolve o = .ok topic ∧
      a.answer? o = some ⟨topic, o.encodePayload message.payload, message.qos, message.retain,
        message.priority⟩ := by
  rw [answer?, answering]
  cases hanswer : a.handler.answer a.context a.payload with
  | none =>
    refine .inl ⟨?_, rfl⟩
    cases a.context.requester <;> cases a.context.requestId <;> rfl
  | some outcome =>
    rw [Option.bind_some]
    cases hreply : Request.reply a.clock.now a.context outcome with
    | none =>
      refine .inl ⟨?_, rfl⟩
      rw [Request.reply] at hreply
      cases hrequester : a.context.requester with
      | none => rfl
      | some requester =>
        cases hid : a.context.requestId with
        | none => rfl
        | some id =>
          rw [hrequester, hid] at hreply
          cases hreply
    | some message =>
      obtain ⟨requester, id, hrequester, hid, rfl⟩ := Request.reply_eq_some_iff.1 hreply
      rw [hrequester, hid]
      exact .inr ⟨_, _, rfl, rfl, Request.resolve_answer o happ requester id, rfl⟩

end Asked

variable {σ : Type}

/-- A message that comes in is a request that is taken: it is admitted as a control message that is
no answer, its application has a handler, and the pool has a place for it. -/
def Event.asked? (g : Gateway σ) : Event σ → Option Asked
  | .arrive text bytes _ _ =>
    let topic := Topic.parse g.options text
    let payload := g.options.decodePayload bytes
    if g.admits topic payload && topic.isControl g.options && !topic.isReply g.options &&
        g.pool.takes then
      (g.handlers.get? topic.app).map fun handler =>
        ⟨g.clock, handler, .of g.options topic payload, payload⟩
    else none
  | _ => none

/-- A request whose handler has come to its end, and the options at that time. -/
structure Ended where
  number : Nat
  options : Options
deriving DecidableEq

/-- What there is to say of requests after a history. -/
structure Ledger where
  /-- The requests that were taken, in order. -/
  asked : List Asked := []
  /-- When the handlers that were called come to their ends, by the numbers of the requests. -/
  called : List (Nat × Nat) := []
  /-- The requests whose handlers have come to their ends, in that order. -/
  ended : List Ended := []
  /-- What jobs handed to the transport, which took it. -/
  replies : List Outbound := []

/-- A message is the answer to a request: it goes to whoever asked, and whoever reads it learns what
came of the request. -/
def Asked.IsAnsweredBy (a : Asked) (o : Options) (out : Outbound) : Prop :=
  ∃ requester id outcome, a.context.requester = some requester ∧ a.context.requestId = some id ∧
    a.handler.answer a.context a.payload = some outcome ∧
    out.topic = Request.answerTopic o requester a.context.app id ∧ out.qos = .atLeastOnce ∧
    (o.encoding.Bears (Request.source a.clock.now outcome) → o.encoding.Measures out.payload →
      Request.Tells o.encoding (o.decodePayload out.payload) outcome)

theorem Asked.IsAnsweredBy.tells {a : Asked} {o : Options} {out : Outbound}
    (h : a.IsAnsweredBy o out) {outcome : Request.Outcome}
    (houtcome : a.handler.answer a.context a.payload = some outcome)
    (hbears : o.encoding.Bears (Request.source a.clock.now outcome))
    (hsize : o.encoding.Measures out.payload) :
    Request.Tells o.encoding (o.decodePayload out.payload) outcome := by
  obtain ⟨requester, id, outcome', -, -, houtcome', -, -, htells⟩ := h
  obtain rfl := Option.some.inj (houtcome.symm.trans houtcome')
  exact htells hbears hsize

namespace Ledger

def numbers (l : Ledger) : List Nat := l.ended.map (·.number)

/-- The answers to requests whose handlers have come to their ends. -/
def answers (l : Ledger) : List Outbound :=
  l.ended.filterMap fun e => (l.asked[e.number]?).bind (·.answer? e.options)

/-- When the handler of a request comes to its end, if it was called or is called now. -/
def due? (l : Ledger) (n now : Nat) : Option Nat :=
  (l.called.lookup n).or ((l.asked[n]?).map fun r => now + r.handler.delayMs)

/-- The handler of a request is called in the first turn of the job, unless the job was stopped. -/
def calling? (l : Ledger) (g : Gateway σ) : Event σ → Option (Nat × Nat)
  | .turn (.pool (.job n)) =>
    if g.pool.isActive n && (l.called.lookup n).isNone then
      (l.due? n g.agenda.now).map fun time => (n, time)
    else none
  | _ => none

/-- The time of the handler of a request is over, for the first time. -/
def isOver (l : Ledger) (n now : Nat) : Bool :=
  !l.numbers.contains n && (l.due? n now).any fun time => time ≤ now

/-- The request whose handler comes to its end in an event, which is a turn of its job. -/
def ending? (l : Ledger) (g : Gateway σ) : Event σ → Option Nat
  | .turn (.pool (.job n)) =>
    if g.pool.isActive n && l.isOver n g.agenda.now then some n else none
  | _ => none

end Ledger

variable [Transport σ]

/-- The messages that a job hands to the transport in its turn, if the transport takes them. -/
def Event.replies (g : Gateway σ) (e : Event σ) : List Outbound :=
  match e with
  | .turn (.pool (.job _)) =>
    ((e.apply g).handed.drop g.handed.length).filterMap fun m => if m.2 then some m.1 else none
  | _ => []

theorem Event.replies_turn {g : Gateway σ} {n : Nat} {more : List (Outbound × Bool)}
    (h : (g.turn (.pool (.job n))).handed = g.handed ++ more) :
    Event.replies g (.turn (.pool (.job n))) =
      more.filterMap fun m => if m.2 then some m.1 else none := by
  show ((g.turn (.pool (.job n))).handed.drop g.handed.length).filterMap _ = _
  rw [h, List.drop_left]

def Ledger.record (l : Ledger) (g : Gateway σ) (e : Event σ) : Ledger where
  asked := l.asked ++ (e.asked? g).toList
  called := l.called ++ (l.calling? g e).toList
  ended := l.ended ++ ((l.ending? g e).map fun n => ⟨n, g.options⟩).toList
  replies := l.replies ++ e.replies g

/-- The gateway is not stopping, and its transport takes messages. -/
def IsUp (g : Gateway σ) : Prop :=
  g.stopping = false ∧ ∀ out, (Transport.publish out g.transport).1.isOk = true

/-! ## 2. The turn of a job -/

/-- A message was handed over, and nothing is left to do but to wait for its acknowledgement. -/
def Activity.AwaitsDelivery (a : Activity) : Prop :=
  ∃ ticket id deadline, a = .waits (.delivery ticket id deadline) []

/-- A job is over, or it waits for its message to be acknowledged. -/
def IsAnswered (g : Gateway σ) (n : Nat) : Prop :=
  (g.activity (.pool (.job n)) = none ∧ g.pool.isActive n = false) ∨
    ∃ a, g.activity (.pool (.job n)) = some a ∧ a.AwaitsDelivery

omit [Transport σ] in
theorem isAnswered_finish (n : Nat) (result : Result) (g : Gateway σ) :
    (g.finish (.pool (.job n)) result).IsAnswered n := by
  refine .inl ⟨?_, Pool.isActive_stop n⟩
  show (g.drop (.pool (.job n))).activity (.pool (.job n)) = none
  rw [activity_drop, if_pos rfl]

theorem handed_handTracked_of_isUp {g : Gateway σ} (hup : g.IsUp) (out : Outbound) :
    (g.handTracked out).2.handed = g.handed ++ [(out, true)] := by
  rw [handed_eq_of_handed (handed_handTracked out g), hup.2 out]

/-- A handler that is called, and takes no time or is waited for. -/
theorem run_steps (a : Asked) (strand : Strand) (g : Gateway σ) :
    g.run strand a.steps nothing =
      let called := g.note (.requested a.handler.name a.context a.payload)
      let time := g.agenda.now + a.handler.delayMs
      let waiting := called.hold strand (.waits (.moment time) a.answering)
      if a.handler.delayMs = 0 then called.run strand a.answering nothing
      else waiting.setAlarm strand (.moment time) := by
  rw [Asked.steps_eq, run, take]
  dsimp only
  rw [run, take]
  by_cases hdelay : a.handler.delayMs = 0
  · rw [if_pos hdelay, if_pos hdelay]
  · rw [if_neg hdelay, if_neg hdelay]
    rfl

/-- When the handler has come to its end, its answer is handed over, if there is one. -/
theorem run_answering {a : Asked} (happ : a.context.app ≠ "") {g : Gateway σ} (hup : g.IsUp)
    (n : Nat) (result : Result) :
    (g.run (.pool (.job n)) a.answering result).handed =
        g.handed ++ (a.answer? g.options).toList.map (·, true) ∧
      (g.run (.pool (.job n)) a.answering result).IsAnswered n := by
  obtain ⟨hanswer, hsteps⟩ | ⟨message, topic, hsteps, hqos, hresolve, hanswer⟩ :=
    Asked.answering_cases happ g.options
  · rw [hanswer, hsteps, run, handed_finish]
    exact ⟨(List.append_nil _).symm, isAnswered_finish n result g⟩
  · -- The gateway does not hold the answer back, so it is up to the transport, which takes it.
    let out : Outbound :=
      ⟨topic, g.options.encodePayload message.payload, message.qos, message.retain,
        message.priority⟩
    have htake : g.take (.publish message) = g.handTracked out := by
      have hstopping : ¬g.stopping = true := by simp [hup.1]
      rw [take, if_neg hstopping, deliver, hresolve]
      exact if_neg (by simp [hqos])
    have hhanded := handed_handTracked_of_isUp hup out
    rw [hanswer, hsteps, run, htake]
    split
    · next result' g' heq =>
      rw [heq] at hhanded
      rw [run, handed_finish]
      exact ⟨hhanded, isAnswered_finish n result' g'⟩
    · next hold g' heq =>
      rw [heq] at hhanded
      obtain ⟨ticket, id, deadline, rfl⟩ := waits_of_handTracked (congrArg Prod.fst heq)
      refine ⟨?_, .inr ⟨_, ?_, ticket, id, deadline, rfl⟩⟩
      · rw [handed_setAlarm]
        exact hhanded
      · rw [activity_setAlarm, activity_hold, if_pos rfl]

/-! ## 3. What the ledger tells -/

omit [Transport σ] in
/-- What jobs other than a strand are about was not changed, and no job was submitted. -/
structure SparesJobs (strand : Strand) (g g' : Gateway σ) : Prop where
  activity : ∀ n, .pool (.job n) ≠ strand →
    g'.activity (.pool (.job n)) = g.activity (.pool (.job n))
  pool : g.pool.Proceeds g'.pool

/-- Only the turn of a job and a request that comes in have to do with jobs. -/
theorem sparesJobs_apply {strand : Strand} {e : Event σ} (hturn : ∀ s, e = .turn s → s = strand)
    (harrive : ∀ text bytes qos retained, e ≠ .arrive text bytes qos retained) (g : Gateway σ) :
    SparesJobs strand g (e.apply g) := by
  refine ⟨fun n hn => activity_apply_eq (fun he => hn (hturn _ he)) nofun nofun g, ?_⟩
  obtain ⟨_, -, hspares⟩ | hleaves := spares_or_leaves e g
  · exact hspares.pool
  · rw [hleaves.pool harrive]
    exact .refl g.pool

/-- A job waits for a handler that has not come to its end. -/
def Ledger.Waits (l : Ledger) (n : Nat) (a : Activity) : Prop :=
  n ∉ l.numbers ∧ ∃ time r, l.called.lookup n = some time ∧ l.asked[n]? = some r ∧
    a = .waits (.moment time) r.answering

structure Ledger.Tells (l : Ledger) (g : Gateway σ) : Prop where
  serves : g.pool.Serves (l.asked.map Asked.steps)
  activity : ∀ n a, g.activity (.pool (.job n)) = some a →
    n ∈ l.numbers ∧ a.AwaitsDelivery ∨ l.Waits n a
  /-- A job whose handler was called is about something, unless it was stopped. -/
  called : ∀ n time, l.called.lookup n = some time → n < g.pool.started ∧
    (g.pool.isActive n = true → (g.activity (.pool (.job n))).isSome = true)
  ended : ∀ n ∈ l.numbers, n < g.pool.started ∧ g.IsAnswered n
  nodup : l.numbers.Nodup
  replies : l.replies = l.answers

namespace Ledger.Tells

variable {l : Ledger} {g g' : Gateway σ} {n : Nat}

omit [Transport σ]

theorem number_lt (h : l.Tells g) (hn : n ∈ l.numbers) : n < l.asked.length := by
  have hstarted := h.serves.started_le
  rw [List.length_map] at hstarted
  exact Nat.lt_of_lt_of_le (h.ended n hn).1 hstarted

theorem of_isActive (h : l.Tells g) (hn : g.pool.isActive n = true) :
    n < g.pool.started ∧ ∃ r, l.asked[n]? = some r ∧ g.pool.active.lookup n = some r.steps := by
  obtain ⟨job, hjob, hnumber⟩ := List.any_eq_true.1 hn
  have hnumber' : job.1 = n := beq_iff_eq.1 hnumber
  have hsome : (g.pool.active.lookup n).isSome = true :=
    List.lookup_isSome_iff.2 ⟨job, hjob, hnumber' ▸ beq_self_eq_true _⟩
  obtain ⟨steps, hsteps⟩ := Option.isSome_iff_exists.1 hsome
  obtain ⟨before, behind, hactive, -⟩ := List.lookup_eq_some_iff.1 hsteps
  have hmem : (n, steps) ∈ g.pool.active := by simp [hactive]
  obtain ⟨hstarted, hget⟩ := h.serves.active _ hmem
  rw [List.getElem?_map, Option.map_eq_some_iff] at hget
  obtain ⟨r, hr, rfl⟩ := hget
  exact ⟨hstarted, r, hr, hsteps⟩

theorem isAnswered_of_spares {strand : Strand} (hspares : SparesJobs strand g g')
    (hstrand : .pool (.job n) ≠ strand) (hstarted : n < g.pool.started) (h : g.IsAnswered n) :
    g'.IsAnswered n := by
  rw [IsAnswered, hspares.activity n hstrand]
  refine h.imp_left fun ⟨hnone, hover⟩ => ⟨hnone, ?_⟩
  cases hactive : g'.pool.isActive n with
  | false => rfl
  | true =>
    rcases hspares.pool.isActive n hactive with hn | hn
    · rw [hover] at hn
      cases hn
    · omega

theorem isSome_of_spares {strand : Strand} (hspares : SparesJobs strand g g')
    (hstrand : .pool (.job n) ≠ strand) (hstarted : n < g.pool.started)
    (h : g.pool.isActive n = true → (g.activity (.pool (.job n))).isSome = true)
    (hactive : g'.pool.isActive n = true) : (g'.activity (.pool (.job n))).isSome = true := by
  rw [hspares.activity n hstrand]
  rcases hspares.pool.isActive n hactive with hn | hn
  · exact h hn
  · omega

/-- What a ledger tells stays the same when nothing happens to jobs. -/
theorem of_spares (h : l.Tells g) {strand : Strand} (hspares : SparesJobs strand g g')
    (hstrand : ∀ n, .pool (.job n) ≠ strand) : l.Tells g' := by
  have hstarted {n : Nat} (hn : n < g.pool.started) : n < g'.pool.started :=
    Nat.lt_of_lt_of_le hn hspares.pool.started_le
  refine ⟨hspares.pool.serves _ h.serves, fun n a ha => ?_, fun n time hn => ?_, fun n hn => ?_,
    h.nodup, h.replies⟩
  · exact h.activity n a ((hspares.activity n (hstrand n)).symm.trans ha)
  · obtain ⟨hbefore, hsome⟩ := h.called n time hn
    exact ⟨hstarted hbefore, isSome_of_spares hspares (hstrand n) hbefore hsome⟩
  · obtain ⟨hbefore, hanswered⟩ := h.ended n hn
    exact ⟨hstarted hbefore, isAnswered_of_spares hspares (hstrand n) hbefore hanswered⟩

/-- The turn of a job changes what the job is about and what is known of its handler. -/
theorem of_turn (h : l.Tells g) {l' : Ledger} (hspares : SparesJobs (.pool (.job n)) g g')
    (hstarted : n < g.pool.started) (hasked : l'.asked = l.asked)
    (hcalled : ∀ m, m ≠ n → l'.called.lookup m = l.called.lookup m)
    (hnumbers : ∀ m, m ≠ n → (m ∈ l'.numbers ↔ m ∈ l.numbers))
    (hown : n ∈ l'.numbers ∧ g'.IsAnswered n ∨
      ∃ a, g'.activity (.pool (.job n)) = some a ∧ l'.Waits n a)
    (hnodup : l'.numbers.Nodup) (hreplies : l'.replies = l'.answers) : l'.Tells g' := by
  have hother {m : Nat} (hm : m ≠ n) : Strand.pool (.job m) ≠ .pool (.job n) := by simp [hm]
  have hstarted' {m : Nat} (hm : m < g.pool.started) : m < g'.pool.started :=
    Nat.lt_of_lt_of_le hm hspares.pool.started_le
  -- What is told of other jobs is as before, and what is told of this one is `hown`.
  refine ⟨hasked ▸ hspares.pool.serves _ h.serves, fun m a ha => ?_, fun m time hm => ?_,
    fun m hm => ?_, hnodup, hreplies⟩
  · by_cases hne : m = n
    · subst hne
      rcases hown with ⟨hended, ⟨hnone, -⟩ | ⟨b, hb, hawaits⟩⟩ | ⟨b, hb, hwaits⟩
      · rw [hnone] at ha
        cases ha
      · obtain rfl := Option.some.inj (hb.symm.trans ha)
        exact .inl ⟨hended, hawaits⟩
      · obtain rfl := Option.some.inj (hb.symm.trans ha)
        exact .inr hwaits
    · rw [hspares.activity m (hother hne)] at ha
      rw [Ledger.Waits, hnumbers m hne, hcalled m hne, hasked]
      exact h.activity m a ha
  · by_cases hne : m = n
    · subst hne
      refine ⟨hstarted' hstarted, fun hactive => ?_⟩
      rcases hown with ⟨-, ⟨-, hover⟩ | ⟨b, hb, -⟩⟩ | ⟨b, hb, -⟩
      · rw [hactive] at hover
        cases hover
      · rw [hb]
        rfl
      · rw [hb]
        rfl
    · rw [hcalled m hne] at hm
      obtain ⟨hbefore, hsome⟩ := h.called m time hm
      exact ⟨hstarted' hbefore, isSome_of_spares hspares (hother hne) hbefore hsome⟩
  · by_cases hne : m = n
    · subst hne
      exact ⟨hstarted' hstarted,
        (hown.resolve_right fun ⟨_, _, hfresh, _⟩ => hfresh hm).2⟩
    · obtain ⟨hbefore, hanswered⟩ := h.ended m ((hnumbers m hne).1 hm)
      exact ⟨hstarted' hbefore, isAnswered_of_spares hspares (hother hne) hbefore hanswered⟩

end Ledger.Tells

theorem Ledger.isOver_eq {l : Ledger} {n now time : Nat} (hfresh : n ∉ l.numbers)
    (hdue : l.due? n now = some time) : l.isOver n now = decide (time ≤ now) := by
  rw [isOver, hdue, Option.any_some, List.contains_eq_mem, decide_eq_false hfresh, Bool.not_false,
    Bool.true_and]

section

variable {g : Gateway σ} {n : Nat}

theorem turn_first {a : Asked} (halive : g.pool.isActive n = true)
    (hsteps : g.pool.active.lookup n = some a.steps)
    (hidle : g.activity (.pool (.job n)) = none) :
    g.turn (.pool (.job n)) = g.run (.pool (.job n)) a.steps nothing := by
  rw [turn_eq (show g.isAlive (.pool (.job n)) = true from halive), hidle]
  dsimp only
  rw [turnOf, hsteps]

theorem turn_waiting {time : Nat} {rest : List Step} (halive : g.pool.isActive n = true)
    (ha : g.activity (.pool (.job n)) = some (.waits (.moment time) rest)) :
    g.turn (.pool (.job n)) = if g.agenda.now < time then g
      else (g.drop (.pool (.job n))).run (.pool (.job n)) rest nothing := by
  rw [turn_eq (show g.isAlive (.pool (.job n)) = true from halive), ha]
  rfl

theorem turn_answered {a : Activity} (halive : g.pool.isActive n = true)
    (ha : g.activity (.pool (.job n)) = some a) (hawaits : a.AwaitsDelivery) :
    (g.turn (.pool (.job n))).handed = g.handed ∧ (g.turn (.pool (.job n))).IsAnswered n := by
  obtain ⟨ticket, id, deadline, rfl⟩ := hawaits
  rw [turn_eq (show g.isAlive (.pool (.job n)) = true from halive), ha]
  dsimp only
  rw [look]
  rcases g.tracker.poll ticket deadline g.agenda.now with ⟨outcome, tracker⟩
  cases outcome with
  | some outcome =>
    dsimp only
    rw [run, handed_finish]
    exact ⟨rfl, isAnswered_finish ..⟩
  | none => exact ⟨rfl, .inr ⟨_, ha, ticket, id, deadline, rfl⟩⟩

end

omit [Transport σ] in
theorem Ledger.Tells.fresh_of_idle {l : Ledger} {g : Gateway σ} (h : l.Tells g) {n : Nat}
    (halive : g.pool.isActive n = true) (hidle : g.activity (.pool (.job n)) = none) :
    l.called.lookup n = none ∧ n ∉ l.numbers := by
  refine ⟨Option.eq_none_iff_forall_ne_some.2 fun time hcalled => ?_, fun hn => ?_⟩
  · have hsome := (h.called n time hcalled).2 halive
    rw [hidle] at hsome
    cases hsome
  · rcases (h.ended n hn).2 with ⟨-, hover⟩ | ⟨a, ha, -⟩
    · rw [halive] at hover
      cases hover
    · rw [hidle] at ha
      cases ha

/-- What a job comes to in its turn, for a request and the time at which its handler comes to its
end. -/
inductive Ledger.Comes (l : Ledger) (g : Gateway σ) (n : Nat) (r : Asked) : Prop where
  /-- The handler came to its end before, and the answer was handed over then. -/
  | answered (hended : n ∈ l.numbers) (hanswered : (g.turn (.pool (.job n))).IsAnswered n)
    (hhanded : (g.turn (.pool (.job n))).handed = g.handed)
  /-- The handler takes its time. -/
  | waits (time : Nat) (hfresh : n ∉ l.numbers) (hdue : l.due? n g.agenda.now = some time)
    (hlater : g.agenda.now < time)
    (ha : (g.turn (.pool (.job n))).activity (.pool (.job n)) =
      some (.waits (.moment time) r.answering))
    (hhanded : (g.turn (.pool (.job n))).handed = g.handed)
  /-- The handler comes to its end, and its answer is handed over. -/
  | ends (time : Nat) (hfresh : n ∉ l.numbers) (hdue : l.due? n g.agenda.now = some time)
    (hcome : time ≤ g.agenda.now) (hanswered : (g.turn (.pool (.job n))).IsAnswered n)
    (hhanded : (g.turn (.pool (.job n))).handed =
      g.handed ++ (r.answer? g.options).toList.map (·, true))

section

variable {l : Ledger} {g : Gateway σ} {n : Nat} {r : Asked}

theorem comes_first (h : l.Tells g) (halive : g.pool.isActive n = true)
    (hidle : g.activity (.pool (.job n)) = none) (hr : l.asked[n]? = some r)
    (hsteps : g.pool.active.lookup n = some r.steps) (happ : r.context.app ≠ "")
    (hup : l.isOver n g.agenda.now = true → g.IsUp) : l.Comes g n r := by
  obtain ⟨hcalled, hfresh⟩ := h.fresh_of_idle halive hidle
  have hdue : l.due? n g.agenda.now = some (g.agenda.now + r.handler.delayMs) := by
    rw [Ledger.due?, hcalled, hr]
    rfl
  have hturn := turn_first halive hsteps hidle
  rw [run_steps] at hturn
  dsimp only at hturn
  by_cases hdelay : r.handler.delayMs = 0
  · have hover : l.isOver n g.agenda.now = true :=
      (Ledger.isOver_eq hfresh hdue).trans (decide_eq_true (by omega))
    have hup' : (g.note (.requested r.handler.name r.context r.payload)).IsUp := hup hover
    obtain ⟨hhanded, hanswered⟩ := run_answering happ hup' n nothing
    rw [handed_note rfl] at hhanded
    rw [if_pos hdelay] at hturn
    refine .ends _ hfresh hdue (by omega) ?_ ?_
    · rwa [hturn]
    · rwa [hturn]
  · rw [if_neg hdelay] at hturn
    refine .waits _ hfresh hdue (by omega) ?_ ?_
    · rw [hturn, activity_setAlarm, activity_hold, if_pos rfl]
    · rw [hturn, handed_setAlarm]
      exact handed_note rfl g

/-- Once the handler was called, it is looked whether its time is over. -/
theorem comes_waiting {time : Nat} (halive : g.pool.isActive n = true)
    (ha : g.activity (.pool (.job n)) = some (.waits (.moment time) r.answering))
    (hfresh : n ∉ l.numbers) (hcalled : l.called.lookup n = some time)
    (happ : r.context.app ≠ "") (hup : l.isOver n g.agenda.now = true → g.IsUp) :
    l.Comes g n r := by
  have hdue : l.due? n g.agenda.now = some time := by
    rw [Ledger.due?, hcalled]
    rfl
  have hturn := turn_waiting halive ha
  by_cases hlt : g.agenda.now < time
  · rw [if_pos hlt] at hturn
    refine .waits time hfresh hdue hlt ?_ ?_
    · rwa [hturn]
    · rw [hturn]
  · have hcome : time ≤ g.agenda.now := Nat.le_of_not_lt hlt
    have hup' : (g.drop (.pool (.job n))).IsUp :=
      hup ((Ledger.isOver_eq hfresh hdue).trans (decide_eq_true hcome))
    obtain ⟨hhanded, hanswered⟩ := run_answering happ hup' n nothing
    rw [if_neg hlt] at hturn
    refine .ends time hfresh hdue hcome ?_ ?_
    · rwa [hturn]
    · rwa [hturn]

theorem comes_turn (h : l.Tells g) (halive : g.pool.isActive n = true)
    (hup : l.isOver n g.agenda.now = true → g.IsUp) (happ : ∀ r ∈ l.asked, r.context.app ≠ "") :
    ∃ r, l.asked[n]? = some r ∧ l.Comes g n r := by
  obtain ⟨-, r, hr, hsteps⟩ := h.of_isActive halive
  have hr' : r.context.app ≠ "" := happ r (List.mem_of_getElem? hr)
  refine ⟨r, hr, ?_⟩
  cases ha : g.activity (.pool (.job n)) with
  | none => exact comes_first h halive ha hr hsteps hr' hup
  | some a =>
    rcases h.activity n a ha with ⟨hended, hawaits⟩ | ⟨hfresh, time, r', hcalled, hr'', rfl⟩
    · obtain ⟨hhanded, hanswered⟩ := turn_answered halive ha hawaits
      exact .answered hended hanswered hhanded
    · obtain rfl : r = r' := Option.some.inj (hr.symm.trans hr'')
      exact comes_waiting halive ha hfresh hcalled hr' hup

end

/-! ## 4. Requests that come in -/

omit [Transport σ] in
/-- A message that comes in adds the job of its request to the queue, if it is one that is taken. -/
theorem pool_arrive (text : String) (bytes : List UInt8) (qos : Qos) (retained : Bool)
    (g : Gateway σ) :
    (g.arrive text bytes qos retained).pool = { g.pool with queue := g.pool.queue ++
      ((Event.arrive text bytes qos retained).asked? g).toList.map Asked.steps } := by
  have hnone {asked : Option Asked} (h : asked = none) :
      g.pool = { g.pool with queue := g.pool.queue ++ asked.toList.map Asked.steps } := by
    rw [h]
    exact congrArg (fun queue => { g.pool with queue }) (List.append_nil g.pool.queue).symm
  rw [Event.asked?]
  unfold arrive
  dsimp only
  generalize Topic.parse g.options text = topic
  generalize g.options.decodePayload bytes = payload
  -- A job is made of what is admitted, is for control and no reply, has a handler, and finds a
  -- place.
  by_cases hadmits : g.admits topic payload = true
  · obtain ⟨agenda, hrequest⟩ := request_eq topic payload g
    rw [if_pos hadmits, hrequest, foldl_note, hadmits, jobFor?, Bool.true_and]
    by_cases hcontrol : (topic.isControl g.options && !topic.isReply g.options) = true
    · rw [if_pos hcontrol, hcontrol, Bool.true_and]
      cases hhandler : g.handlers.get? topic.app with
      | none => exact hnone (by split <;> rfl)
      | some handler =>
        rw [Option.map_some, Option.elim_some, Pool.offer_eq]
        by_cases htakes : g.pool.takes = true
        · have hplace : ¬(g.pool.closed = true ∨
              Pool.queueDepth * g.pool.size ≤ g.pool.queue.length) := by
            simpa [Pool.takes] using htakes
          rw [if_pos htakes, if_neg hplace]
          rfl
        · have hplace : g.pool.closed = true ∨
              Pool.queueDepth * g.pool.size ≤ g.pool.queue.length := by
            simpa [Pool.takes, Decidable.or_iff_not_imp_left] using htakes
          rw [if_neg htakes, if_pos hplace]
          rfl
    · rw [if_neg hcontrol, Option.elim_none]
      refine hnone (if_neg fun htaken => hcontrol ?_)
      exact (Bool.and_eq_true_iff.1 htaken).1
  · rw [if_neg hadmits]
    refine hnone (if_neg fun htaken => hadmits ?_)
    simp only [Bool.and_eq_true] at htaken
    exact htaken.1.1.1

namespace Ledger.Tells

variable {l : Ledger} {g g' : Gateway σ}

omit [Transport σ] in
/-- Requests that are taken come after all others. -/
theorem of_asked (h : l.Tells g) {more : List Asked}
    (hactivity : ∀ n, g'.activity (.pool (.job n)) = g.activity (.pool (.job n)))
    (hpool : g'.pool = { g.pool with queue := g.pool.queue ++ more.map Asked.steps }) :
    { l with asked := l.asked ++ more }.Tells g' := by
  have hbefore {n : Nat} {r : Asked} (hr : l.asked[n]? = some r) :
      (l.asked ++ more)[n]? = some r := by
    rw [List.getElem?_append_left (List.getElem?_eq_some_iff.1 hr).1, hr]
  refine ⟨?_, fun n a ha => ?_, fun n time hn => ?_, fun n hn => ?_, h.nodup, ?_⟩
  · rw [hpool, List.map_append]
    exact h.serves.enqueue _
  · refine (h.activity n a ((hactivity n).symm.trans ha)).imp_right ?_
    rintro ⟨hfresh, time, r, hcalled, hr, rfl⟩
    exact ⟨hfresh, time, r, hcalled, hbefore hr, rfl⟩
  · rw [hactivity, hpool]
    exact h.called n time hn
  · rw [IsAnswered, hactivity, hpool]
    exact h.ended n hn
  · refine h.replies.trans (List.filterMap_congr fun e he => ?_)
    have hlt := h.number_lt (List.mem_map_of_mem he)
    rw [List.getElem?_append_left hlt]

omit [Transport σ] in
theorem of_drop (h : l.Tells g) {n : Nat} (hover : g.pool.isActive n = false) :
    l.Tells (g.drop (.pool (.job n))) := by
  have hother {m : Nat} (hm : m ≠ n) : (g.drop (.pool (.job n))).activity (.pool (.job m)) =
      g.activity (.pool (.job m)) := by
    rw [activity_drop, if_neg (by simp [hm])]
  refine ⟨h.serves, fun m a ha => ?_, fun m time hm => ?_, fun m hm => ?_, h.nodup, h.replies⟩
  · rw [activity_drop] at ha
    split at ha
    · cases ha
    · exact h.activity m a ha
  · refine ⟨(h.called m time hm).1, fun hactive => ?_⟩
    by_cases hne : m = n
    · subst hne
      rw [show g.pool.isActive m = true from hactive] at hover
      cases hover
    · rw [hother hne]
      exact (h.called m time hm).2 hactive
  · refine ⟨(h.ended m hm).1, ?_⟩
    by_cases hne : m = n
    · subst hne
      exact .inl ⟨by rw [activity_drop, if_pos rfl], hover⟩
    · rw [IsAnswered, hother hne]
      exact (h.ended m hm).2

omit [Transport σ] in
/-- In the turn of a job, its handler is called if that was not done before. -/
theorem lookup_calling {n : Nat} (halive : g.pool.isActive n = true) (m : Nat) :
    (l.called ++ (l.calling? g (.turn (.pool (.job n)))).toList).lookup m =
      if m = n then l.due? n g.agenda.now else l.called.lookup m := by
  have hlookup (due : Option Nat) : (due.map fun time => (n, time)).toList.lookup m =
      if m = n then due else none := by
    cases due with
    | none => exact (ite_self none).symm
    | some time =>
      by_cases hne : m = n
      · rw [if_pos hne, hne]
        exact List.lookup_cons_self
      · rw [if_neg hne]
        show [(n, time)].lookup m = none
        rw [List.lookup_cons, beq_false_of_ne hne, List.lookup_nil]
  rw [List.lookup_append, Ledger.calling?, halive, Bool.true_and]
  cases hcalled : l.called.lookup n with
  | none =>
    rw [Option.isNone_none, if_pos rfl, hlookup]
    by_cases hne : m = n
    · rw [if_pos hne, if_pos hne, hne, hcalled, Option.none_or]
    · rw [if_neg hne, if_neg hne, Option.or_none]
  | some time =>
    rw [Option.isNone_some, if_neg Bool.false_ne_true, Option.toList_none, List.lookup_nil,
      Option.or_none]
    by_cases hne : m = n
    · rw [if_pos hne, hne, hcalled, Ledger.due?, hcalled, Option.some_or]
    · rw [if_neg hne]

theorem turn_of_stopped {n : Nat} (hover : g.pool.isActive n = false) :
    g.turn (.pool (.job n)) = g.drop (.pool (.job n)) :=
  if_neg (Bool.eq_false_iff.1 hover)

theorem record_of_stopped {n : Nat} (hover : g.pool.isActive n = false) :
    l.record g (.turn (.pool (.job n))) = l := by
  have hcalling : l.calling? g (.turn (.pool (.job n))) = none := by
    rw [Ledger.calling?, hover]
    rfl
  have hending : l.ending? g (.turn (.pool (.job n))) = none := by
    rw [Ledger.ending?, hover]
    rfl
  have hhanded : (g.turn (.pool (.job n))).handed = g.handed ++ [] := by
    rw [turn_of_stopped hover, List.append_nil]
    rfl
  rw [Ledger.record, hcalling, hending, Event.replies_turn hhanded]
  simp only [Event.asked?, Option.map_none, Option.toList_none, List.filterMap_nil,
    List.append_nil]

/-- While its handler does not come to its end, only the call of it is entered for a job. -/
theorem record_of_not_over {n : Nat} (hover : l.isOver n g.agenda.now = false)
    (hhanded : (g.turn (.pool (.job n))).handed = g.handed) :
    l.record g (.turn (.pool (.job n))) = { l with
      called := l.called ++ (l.calling? g (.turn (.pool (.job n)))).toList } := by
  have hending : l.ending? g (.turn (.pool (.job n))) = none := by
    rw [Ledger.ending?, hover, Bool.and_false]
    rfl
  rw [Ledger.record, hending, Event.replies_turn (hhanded.trans (List.append_nil _).symm)]
  simp only [Event.asked?, Option.map_none, Option.toList_none, List.filterMap_nil,
    List.append_nil]

/-- When its handler comes to its end, that and the answer are entered for a job. -/
theorem record_of_over {n : Nat} {reply : Option Outbound} (halive : g.pool.isActive n = true)
    (hover : l.isOver n g.agenda.now = true)
    (hhanded : (g.turn (.pool (.job n))).handed = g.handed ++ reply.toList.map (·, true)) :
    l.record g (.turn (.pool (.job n))) =
      { asked := l.asked
        called := l.called ++ (l.calling? g (.turn (.pool (.job n)))).toList
        ended := l.ended ++ [⟨n, g.options⟩]
        replies := l.replies ++ reply.toList } := by
  have hending : l.ending? g (.turn (.pool (.job n))) = some n := by
    rw [Ledger.ending?, halive, hover]
    rfl
  have htaken : ((reply.toList.map (·, true)).filterMap fun m => if m.2 then some m.1 else none) =
      reply.toList := by
    cases reply <;> rfl
  rw [Ledger.record, hending, Event.replies_turn hhanded, htaken]
  simp only [Event.asked?, Option.map_some, Option.toList_none, Option.toList_some,
    List.append_nil]

theorem record_job (h : l.Tells g) {n : Nat}
    (hup : (l.ending? g (.turn (.pool (.job n)))).isSome → g.IsUp)
    (happ : ∀ r ∈ l.asked, r.context.app ≠ "") :
    (l.record g (.turn (.pool (.job n)))).Tells (g.turn (.pool (.job n))) := by
  cases halive : g.pool.isActive n with
  | false =>
    rw [record_of_stopped halive, turn_of_stopped halive]
    exact h.of_drop halive
  | true =>
    have hspares : SparesJobs (.pool (.job n)) g (g.turn (.pool (.job n))) :=
      sparesJobs_apply (fun _ he => (Event.turn.inj he).symm) nofun g
    have hstarted := (h.of_isActive halive).1
    have hown := (lookup_calling (l := l) halive n).trans (if_pos rfl)
    have hothers (m : Nat) (hm : m ≠ n) := (lookup_calling (l := l) halive m).trans (if_neg hm)
    have hup' (hover : l.isOver n g.agenda.now = true) : g.IsUp := by
      refine hup ?_
      rw [Ledger.ending?, halive, hover]
      rfl
    obtain ⟨r, hr, hcomes⟩ := comes_turn h halive hup' happ
    -- The call of the job is over since an earlier turn, goes on, or ends in this one.
    cases hcomes with
    | answered hended hanswered hhanded =>
      have hover : l.isOver n g.agenda.now = false := by
        rw [Ledger.isOver, List.contains_eq_mem, decide_eq_true hended]
        rfl
      rw [record_of_not_over hover hhanded]
      exact h.of_turn hspares hstarted rfl hothers (fun m _ => Iff.rfl) (.inl ⟨hended, hanswered⟩)
        h.nodup h.replies
    | waits time hfresh hdue hlater ha hhanded =>
      have hover : l.isOver n g.agenda.now = false :=
        (Ledger.isOver_eq hfresh hdue).trans (decide_eq_false (Nat.not_le_of_lt hlater))
      rw [record_of_not_over hover hhanded]
      exact h.of_turn hspares hstarted rfl hothers (fun m _ => Iff.rfl)
        (.inr ⟨_, ha, hfresh, time, r, hown.trans hdue, hr, rfl⟩) h.nodup h.replies
    | ends time hfresh hdue hcome hanswered hhanded =>
      have hover : l.isOver n g.agenda.now = true :=
        (Ledger.isOver_eq hfresh hdue).trans (decide_eq_true hcome)
      have hnumbers :
          (l.ended ++ [(⟨n, g.options⟩ : Ended)]).map Ended.number = l.numbers ++ [n] := by
        rw [List.map_append]
        rfl
      -- The job that ends adds its answer, if there is one, and nothing else.
      have hanswer : [(⟨n, g.options⟩ : Ended)].filterMap
          (fun e => (l.asked[e.number]?).bind (·.answer? e.options)) =
            (r.answer? g.options).toList := by
        rw [List.filterMap_cons, hr, Option.bind_some, List.filterMap_nil]
        cases r.answer? g.options <;> rfl
      rw [record_of_over halive hover hhanded]
      -- No number ends twice, since this one had not ended before.
      refine h.of_turn hspares hstarted rfl hothers (fun m hm => ?_) (.inl ⟨?_, hanswered⟩) ?_ ?_
      · rw [Ledger.numbers, hnumbers, List.mem_append, List.mem_singleton, or_iff_left hm]
      · rw [Ledger.numbers, hnumbers]
        exact List.mem_append_right _ (List.mem_singleton_self n)
      · rw [Ledger.numbers, hnumbers, List.nodup_append]
        refine ⟨h.nodup, List.nodup_singleton n, fun m hm k hk => ?_⟩
        rw [List.mem_singleton.1 hk]
        exact fun heq => hfresh (heq ▸ hm)
      · rw [Ledger.answers, List.filterMap_append, hanswer]
        exact congrArg (· ++ _) h.replies

/-- **What an event does to the ledger.** -/
theorem record (h : l.Tells g) {e : Event σ} (hup : (l.ending? g e).isSome → g.IsUp)
    (happ : ∀ r ∈ l.asked, r.context.app ≠ "") : (l.record g e).Tells (e.apply g) := by
  -- Whatever is neither the turn of a job nor a message that comes in leaves jobs and ledger as
  -- they are.
  have hother {strand : Strand} (hturn : ∀ s, e = .turn s → s = strand)
      (harrive : ∀ topic bytes qos retained, e ≠ .arrive topic bytes qos retained)
      (hstrand : ∀ n, .pool (.job n) ≠ strand) (hsame : l.record g e = l) :
      (l.record g e).Tells (e.apply g) :=
    hsame.symm ▸ h.of_spares (sparesJobs_apply hturn harrive g) hstrand
  have hplain (hasked : e.asked? g = none) (hcalling : l.calling? g e = none)
      (hending : l.ending? g e = none) (hreplies : e.replies g = []) : l.record g e = l := by
    rw [Ledger.record, hasked, hcalling, hending, hreplies]
    simp only [Option.map_none, Option.toList_none, List.append_nil]
  cases e with
  | turn strand =>
    by_cases hjob : ∃ n, strand = .pool (.job n)
    · obtain ⟨n, rfl⟩ := hjob
      exact h.record_job hup happ
    · have hstrand (n : Nat) : .pool (.job n) ≠ strand := fun heq => hjob ⟨n, heq.symm⟩
      refine hother (fun _ hs => (Event.turn.inj hs).symm) (fun _ _ _ _ hs => by cases hs)
        hstrand ?_
      rcases strand with caller | generation | (i | n | _) | number
      case pool.job => exact absurd rfl (hstrand n)
      all_goals exact hplain rfl rfl rfl rfl
  | arrive text bytes qos retained =>
    have hrecord : l.record g (.arrive text bytes qos retained) = { l with
        asked := l.asked ++ ((Event.arrive text bytes qos retained).asked? g).toList } := by
      show (⟨_, l.called ++ [], l.ended ++ [], l.replies ++ []⟩ : Ledger) = _
      rw [List.append_nil, List.append_nil, List.append_nil]
    rw [hrecord]
    exact h.of_asked (fun n => activity_apply_eq (by nofun) (by nofun) (by nofun) g)
      (pool_arrive ..)
  | _ =>
    have hstrand (n : Nat) : .pool (.job n) ≠ Strand.call none := fun heq => by cases heq
    exact hother (fun s hs => by cases hs) (fun _ _ _ _ hs => by cases hs) hstrand
      (hplain rfl rfl rfl rfl)

end Ledger.Tells

/-! ## 5. Whole histories -/

end Gateway

end Uplink
