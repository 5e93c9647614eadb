import Uplink.Proofs.Gateway.Routing
import Uplink.Proofs.Options

/-!
# Where answers arrive

An answer goes to a topic that is put together of who asked, the application that was asked and the
id of the request. Who asked may be any text, and the mark of an answer is set apart from the id by
a slash. The module says when the topic is still read as that of an answer, so that no gateway takes
it for a request.
-/

namespace Uplink

/-- A topic is read as one of answers that an application gives to a requester. -/
structure Topic.IsAnswer (o : Options) (requester app : String) (t : Topic) : Prop where
  isControl : t.isControl o = true
  client : t.client = requester
  app : t.app = app
  isReply : t.isReply o = true

namespace Request

def answerTopic (o : Options) (requester app id : String) : String :=
  o.topic (some requester) app (replyLevel ++ "/" ++ id) true

/-- A request is answered if it says who asked and under which id. -/
theorem reply_eq_some_iff {now : Time.Instant} {context : Context} {outcome : Outcome}
    {message : Message} :
    reply now context outcome = some message ↔ ∃ requester id,
      context.requester = some requester ∧ context.requestId = some id ∧
      message = { payload := answer now outcome, qos := .atLeastOnce
                  destination :=
                    .app context.app (replyLevel ++ "/" ++ id) true (some requester) } := by
  rw [reply]
  cases context.requester with
  | none => simp
  | some requester =>
    cases context.requestId with
    | none => simp
    | some id => simp [Message.toApp, Message.control, Message.forDevice, Message.withQos, eq_comm]

theorem resolve_answer (o : Options) {app : String} (happ : app ≠ "") (requester id : String) :
    (Destination.app app (replyLevel ++ "/" ++ id) true (some requester)).resolve o =
      .ok (answerTopic o requester app id) :=
  if_neg (mt String.isEmpty_iff.1 happ)

end Request

namespace Topic

variable {c : Char} {o : Options}

/-- No part of a topic before its sub-topic contains the separator. -/
theorem notMem_nth (hsep : o.separator = String.singleton c) (text : String) (i : Nat) :
    c ∉ (Levels.nth o.separator text i).toList := by
  rw [Levels.nth, List.getD_eq_getElem?_getD]
  cases h : (Levels.split o.separator text)[i]? with
  | none => exact List.not_mem_nil
  | some level => exact Levels.notMem_of_mem_split (hsep ▸ List.mem_of_getElem? h)

theorem notMem_app (hsep : o.separator = String.singleton c) {text : String}
    (happ : (parse o text).app ≠ "") : c ∉ (parse o text).app.toList := by
  have hsep' : o.separator ≠ "" := by simp [hsep]
  by_cases hparts : text.isEmpty ∨ text = o.wildcard
  · rw [parse, if_pos hparts] at happ
    exact absurd rfl happ
  · obtain ⟨htext, hwild⟩ := not_or.1 hparts
    obtain ⟨-, -, -, hlevel⟩ := parse_levels hsep' (mt String.isEmpty_iff.2 htext) hwild
    rw [hlevel]
    exact notMem_nth hsep text _

theorem notMem_client (hsep : o.separator = String.singleton c) {text : String}
    (hcontrol : (parse o text).isControl o = true) : c ∉ (parse o text).client.toList := by
  have hsep' : o.separator ≠ "" := by simp [hsep]
  obtain ⟨htext, hwild, -⟩ := (isControl_parse_iff hsep').1 hcontrol
  obtain ⟨-, -, hlevel, -⟩ := parse_levels hsep' htext hwild
  rw [hlevel]
  exact notMem_nth hsep text _

end Topic

namespace Request

open Options

variable {c : Char} {o : Options}

/-- The mark of an answer is a level of its own only if levels are separated by slashes. -/
theorem head?_split_answer (c : Char) (id : String) :
    (Levels.split (String.singleton c) (replyLevel ++ "/" ++ id)).head? = some replyLevel ↔
      c = '/' := by
  constructor
  · intro h
    obtain ⟨levels, hsplit⟩ := List.head?_eq_some_iff.1 h
    have htext := Levels.join_split (String.singleton_ne_empty (c := c)) (replyLevel ++ "/" ++ id)
    rw [hsplit, String.append_assoc] at htext
    cases levels with
    | nil =>
      -- There is something after the mark.
      have hlen := congrArg String.length htext
      rw [Levels.join, String.intercalate_singleton, String.length_append,
        String.length_append] at hlen
      have hslash : "/".length = 1 := rfl
      omega
    | cons next levels =>
      -- What comes next is the separator, and it is the slash.
      rw [Levels.join_cons_cons, ← String.toList_inj] at htext
      simp only [String.toList_append, List.append_cancel_left_eq, String.toList_singleton,
        List.singleton_append] at htext
      exact (List.cons.inj htext).1
  · rintro rfl
    have hends : Levels.Ends "/" replyLevel := by decide
    rw [String.append_assoc]
    show (Levels.split "/" (replyLevel ++ ("/" ++ id))).head? = _
    rw [hends.split_append (by decide), List.head?_cons]

/-- The topic of an answer to a requester that is one level has the parts that it is made of.
Whether it is marked is up to the separator. -/
theorem parse_answerTopic (ho : o.InOrder) (hsep : o.separator = String.singleton c)
    (haccount : c ∉ o.accountToken.toList) {requester app : String}
    (hrequester : c ∉ requester.toList) (happ : c ∉ app.toList) (id : String)
    (hwild : answerTopic o requester app id ≠ o.wildcard) :
    let t := Topic.parse o (answerTopic o requester app id)
    t.isControl o = true ∧ t.client = requester ∧ t.app = app ∧ (t.isReply o = true ↔ c = '/') := by
  intro t
  have hends {level : String} (h : c ∉ level.toList) : Levels.Ends o.separator level :=
    hsep ▸ Levels.ends_of_notMem h
  have hcontrol : Levels.Ends o.separator o.controlPrefix :=
    Levels.ends_of_cut_eq_none (hsep ▸ Levels.not_overlaps_singleton c) ho.separator
      ho.cut_controlPrefix
  have hlevels : ∀ level ∈ (some o.controlPrefix).toList ++ [o.accountToken, requester, app],
      Levels.Ends o.separator level := by
    simp [hcontrol, hends haccount, hends hrequester, hends happ]
  have hparse : t = _ := Topic.parse_join_of_ends ho.separator hlevels
    (fun level hlevel => .inl (Option.mem_some.1 hlevel).symm) (fun h => nomatch h)
    (replyLevel ++ "/" ++ id) rfl hwild
  rw [hparse]
  refine ⟨beq_self_eq_true _, rfl, rfl, ?_⟩
  rw [Topic.isReply, Topic.subLevels, hsep, beq_iff_eq]
  exact head?_split_answer c id

/-- A topic that is read as that of an answer is no request: whatever arrives there, no job is made
of it. -/
theorem pool_arrive_of_isAnswer {σ : Type} {g : Gateway σ} {requester app text : String}
    (h : (Topic.parse g.options text).IsAnswer g.options requester app) (bytes : List UInt8)
    (qos : Qos) (retained : Bool) : (g.arrive text bytes qos retained).pool = g.pool := by
  have hrequest : ((Topic.parse g.options text).isControl g.options &&
      !(Topic.parse g.options text).isReply g.options) = false := by
    rw [h.isControl, h.isReply]
    rfl
  unfold Gateway.arrive
  dsimp only
  split
  · rw [hrequest, if_neg Bool.false_ne_true, Gateway.foldl_note]
  · rfl

/-- **When an answer is read as one.** The topic of an answer is read as that of an answer, to the
requester and from the application, exactly if levels are separated by slashes, the requester has
none in it, and the topic is not the wildcard; no gateway makes a job of it then. -/
theorem isAnswer_reply_iff (ho : o.validate = .ok ()) (hsep : o.separator = String.singleton c)
    (haccount : c ∉ o.accountToken.toList) {text : String} (happ : (Topic.parse o text).app ≠ "")
    {payload : Payload} {now : Time.Instant} {outcome : Outcome} {message : Message}
    (h : reply now (Context.of o (Topic.parse o text) payload) outcome = some message) :
    ∃ requester full, payload.string? requesterMetric = some requester ∧
      message.destination.resolve o = .ok full ∧
      ((Topic.parse o full).IsAnswer o requester (Topic.parse o text).app ↔
        c = '/' ∧ c ∉ requester.toList ∧ full ≠ o.wildcard) ∧
      ((Topic.parse o full).IsAnswer o requester (Topic.parse o text).app →
        ∀ {σ : Type} (g : Gateway σ) (bytes : List UInt8) (qos : Qos) (retained : Bool),
          g.options = o → (g.arrive full bytes qos retained).pool = g.pool) := by
  obtain ⟨requester, id, hrequester, -, rfl⟩ := reply_eq_some_iff.1 h
  have hsep' : o.separator ≠ "" := by simp [hsep]
  have hparse (hnotMem : c ∉ requester.toList) :=
    parse_answerTopic (inOrder_of_validate ho) hsep haccount hnotMem (Topic.notMem_app hsep happ) id
  refine ⟨requester, answerTopic o requester (Topic.parse o text).app id, hrequester,
    resolve_answer o happ requester id, ⟨fun hanswer => ?_, fun hall => ?_⟩, ?_⟩
  · -- The level of the client has no separator in it, and the wildcard has no level at all.
    have hnotMem : c ∉ requester.toList :=
      hanswer.client ▸ Topic.notMem_client hsep hanswer.isControl
    have hwild := ((Topic.isControl_parse_iff hsep').1 hanswer.isControl).2.1
    obtain ⟨-, -, -, hreply⟩ := hparse hnotMem hwild
    exact ⟨hreply.1 hanswer.isReply, hnotMem, hwild⟩
  · obtain ⟨hslash, hnotMem, hwild⟩ := hall
    obtain ⟨hcontrol, hclient, happ', hreply⟩ := hparse hnotMem hwild
    exact ⟨hcontrol, hclient, happ', hreply.2 hslash⟩
  · rintro hanswer σ g bytes qos retained rfl
    exact pool_arrive_of_isAnswer hanswer bytes qos retained

/-- A request under an id that is put together like a topic. -/
theorem isAnswer_reply_of_separated_id :
    let o : Options := {}
    let t := Topic.parse o "$EDC/acme/gw-01/CONF-V1/GET/configurations/1"
    let payload := (Payload.empty.add idMetric (.string "../EXEC/7")).add requesterMetric
      (.string "gw-02")
    ∃ message full, reply Clock.epoch.now (Context.of o t payload) (.ok .empty) = some message ∧
      message.destination.resolve o = .ok full ∧
      (Topic.parse o full).IsAnswer o "gw-02" "CONF-V1" := by
  intro o t payload
  have hmade : ∃ message,
      reply Clock.epoch.now (Context.of o t payload) (.ok .empty) = some message ∧
      message.destination.resolve o =
        .ok "$EDC/#account-name/gw-02/CONF-V1/REPLY/../EXEC/7" := ⟨_, rfl, by decide⟩
  obtain ⟨message, hreply, hfull⟩ := hmade
  have happ : t.app = "CONF-V1" := by decide
  have hrequester : payload.string? requesterMetric = some "gw-02" := by decide
  obtain ⟨requester, full, hrequester', hresolve, hanswer, -⟩ :=
    isAnswer_reply_iff (c := '/') (by decide) rfl (by decide) (happ ▸ by decide) hreply
  obtain rfl := Option.some.inj (hrequester.symm.trans hrequester')
  obtain rfl := Except.ok.inj (hfull.symm.trans hresolve)
  exact ⟨message, _, hreply, hfull, happ ▸ hanswer.2 (by decide)⟩

/-- Whoever asks under a name that goes on with an application has the answer come back as a request
to it. And between dots, an answer is not read as one at all. -/
theorem not_isAnswer_reply :
    let asked := Topic.parse {} "$EDC/acme/gw-01/CONF-V1/GET/configurations/1"
    let payload := (Payload.empty.add idMetric (.string "7")).add requesterMetric
      (.string "gw-01/CONF-V1/EXEC")
    let dotted : Options := { separator := "." }
    let asked' := Topic.parse dotted "$EDC.acme.gw-01.CONF-V1.GET.configurations.1"
    let payload' := (Payload.empty.add idMetric (.string "7")).add requesterMetric (.string "gw-02")
    let g : Gateway Loopback := { Gateway.loopback with
      handlers := SortedMap.empty.insert "CONF-V1" { name := "c", answer := fun _ _ => none } }
    (∃ message, reply Clock.epoch.now (Context.of {} asked payload) (.ok .empty) = some message ∧
      message.destination.resolve {} =
        .ok "$EDC/#account-name/gw-01/CONF-V1/EXEC/CONF-V1/REPLY/7" ∧
      (g.arrive "$EDC/#account-name/gw-01/CONF-V1/EXEC/CONF-V1/REPLY/7" [] .atLeastOnce
        false).pool.queue.length = 1) ∧
    (∃ message, reply Clock.epoch.now (Context.of dotted asked' payload') (.ok .empty) =
        some message ∧
      message.destination.resolve dotted = .ok "$EDC.#account-name.gw-02.CONF-V1.REPLY/7" ∧
      (Topic.parse dotted "$EDC.#account-name.gw-02.CONF-V1.REPLY/7").isReply dotted = false) := by
  refine ⟨⟨_, rfl, ?_, ?_⟩, ⟨_, rfl, ?_, ?_⟩⟩
  · decide
  · decide
  · decide
  · decide

end Request

end Uplink
