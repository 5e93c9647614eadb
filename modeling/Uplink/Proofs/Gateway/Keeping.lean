import Uplink.Gateway.Inbound
import Uplink.Gateway.Turn

/-!
# What is kept step by step

What a gateway does in a step is made of small changes: a note, another state of the transport,
another tracker, a message that is waited for. A property that survives these changes survives the
step, and a run of steps. Which changes there are is said here once, for all properties.
-/

namespace Uplink.Gateway

variable {σ : Type} {P : Gateway σ → Prop}

/-! ## 1. Parts that are changed on their own -/

theorem foldl_note {α : Type} (note : α → Note) (list : List α) (g : Gateway σ) :
    list.foldl (fun g a => g.note (note a)) g = { g with notes := g.notes ++ list.map note } := by
  induction list generalizing g with
  | nil => rw [List.map_nil, List.append_nil]; rfl
  | cons a list ih =>
    rw [List.foldl_cons, ih, List.map_cons, List.append_cons]
    rfl

theorem setAlarm_eq (strand : Strand) (hold : Hold) (g : Gateway σ) :
    ∃ agenda, g.setAlarm strand hold = { g with agenda } := by
  rw [setAlarm]
  split
  · exact ⟨_, rfl⟩
  · exact ⟨_, rfl⟩

/-- A strand whose activity is over is forgotten. The result of a caller is kept, and the worker of
a job goes on. -/
theorem keeps_finish {strand : Strand} {g : Gateway σ} (result : Result)
    (hdrop : P (g.drop strand))
    (hfinished : ∀ finished, P (g.drop strand) → P { g.drop strand with finished })
    (hgo : ∀ number, P (g.drop strand) →
      P ((g.drop strand).go ((g.drop strand).pool.finish number))) :
    P (g.finish strand result) := by
  unfold finish
  split
  · exact hfinished _ hdrop
  · exact hgo _ hdrop
  · exact hdrop

/-! ## 2. Messages that come in -/

/-- For a request, its handler is told of it and takes its time, and an answer is published. -/
theorem requestSteps_cases {clock : Clock} {handler : Handler} {context : Request.Context}
    {payload : Payload} {s : Step} (hs : s ∈ requestSteps clock handler context payload) :
    s = .note (.requested handler.name context payload) ∨ s = .pause handler.delayMs ∨
      ∃ message, s = .publish message := by
  rcases List.mem_append.1 hs with hs | hs
  · rcases List.mem_cons.1 hs with hs | hs
    · exact .inl hs
    · exact .inr (.inl (List.mem_singleton.1 hs))
  · obtain ⟨message, -, heq⟩ := Option.map_eq_some_iff.1 (Option.mem_toList.1 hs)
    exact .inr (.inr ⟨message, heq.symm⟩)

/-- A message that comes in may put a job into the queue, and those that it goes to are told. -/
theorem keeps_arrive {text : String} {bytes : List UInt8} {qos : Qos} {retained : Bool}
    {g : Gateway σ} (h : P g)
    (hsubmit : ∀ handler context payload result,
      g.pool.submit (requestSteps g.clock handler context payload) = .ok result → P (g.go result))
    (htell : ∀ message (names : List String) g', P g' →
      P (names.foldl (fun g name => g.note (.told name message)) g')) :
    P (g.arrive text bytes qos retained) := by
  have hdispatch (topic : Topic) (payload : Payload) : P (g.dispatch topic payload) := by
    unfold dispatch
    split
    · exact h
    · dsimp only
      split
      · next hok => exact hsubmit _ _ _ _ hok
      · exact h
  unfold arrive
  dsimp only
  split
  · split
    · exact htell _ _ _ (hdispatch _ _)
    · exact htell _ _ _ h
  · exact h

variable [Transport σ]

/-! ## 3. Calls about filters -/

/-- What a single call keeps is kept when all filters are asked for again. -/
theorem keeps_resubscribe
    (hsubscribe : ∀ filter qos g, P g → P (g.subscribeTo filter qos)) {g : Gateway σ} (h : P g) :
    P g.resubscribe := by
  rw [resubscribe]
  generalize g.subscriptions.records = records
  induction records generalizing g with
  | nil => exact h
  | cons r records ih => exact ih (hsubscribe r.filter r.qos g h)

/-- What a single call keeps, and the choice of another default filter, is kept when the transport is
brought from one default filter to another. -/
theorem keeps_reconcile
    (hsubscribe : ∀ filter qos g, P g → P (g.subscribeTo filter qos))
    (hunsubscribe : ∀ filter g, P g → P (g.unsubscribeFrom filter))
    (hdefault : ∀ (filter : Option String) g, P g → P { g with defaultFilter := filter })
    (isNew : Bool) {g : Gateway σ} (h : P g) : P (g.reconcile isNew) := by
  have hgiven (desired : Option String) (filter : String) :
      P (if desired = some filter then g else g.unsubscribeFrom filter) := by
    split
    · exact h
    · exact hunsubscribe filter g h
  have hasked (kept : Bool) (filter : String) {g' : Gateway σ} (h : P g') :
      P (if kept then g' else g'.subscribeTo filter .atLeastOnce) := by
    split
    · exact h
    · exact hsubscribe filter _ g' h
  rw [reconcile]
  generalize g.desiredFilter = desired, g.defaultFilter = previous
  apply hdefault
  cases previous with
  | none =>
    cases desired with
    | none => exact h
    | some filter => exact hasked _ filter h
  | some previous =>
    cases desired with
    | none => exact hgiven none previous
    | some filter => exact hasked _ filter (hgiven (some filter) previous)

/-! ## 4. Messages that are sent -/

/-- The transport takes a message or not, which is noted. Then its acknowledgement may be on the
way. -/
theorem keeps_hand {message : Outbound} {g : Gateway σ}
    (hpublish : P (note (.published message (Transport.publish message g.transport).1)
      { g with transport := (Transport.publish message g.transport).2 }))
    (hexpect : ∀ id g', P g' → P (g'.expect id message)) : P (g.hand message).2 := by
  unfold hand
  dsimp only
  split
  · exact hpublish
  · dsimp only
    split
    · exact hexpect _ _ hpublish
    · exact hpublish

theorem keeps_handTracked (htrack : ∀ tracker g, P g → P (g.track tracker)) {message : Outbound}
    (hhand : ∀ g, P g → P (g.hand message).2) {g : Gateway σ} (h : P g) :
    P (g.handTracked message).2 := by
  have hhanded := hhand _ (htrack (g.tracker.arm message.qos).2 g h)
  unfold handTracked
  dsimp only
  split
  · next heq =>
    rw [heq] at hhanded
    exact htrack _ _ hhanded
  · next heq =>
    rw [heq] at hhanded
    split
    · exact htrack _ _ hhanded
    · exact htrack _ _ hhanded

/-- A message without a destination is not handed over, and one for which nobody waits is handed
over without a ticket. -/
theorem keeps_deliver {g : Gateway σ} (h : P g) (hhand : ∀ message, P (g.hand message).2)
    (htracked : ∀ message, P (g.handTracked message).2) (message : Message) (handOver : Bool) :
    P (g.deliver message handOver).2 := by
  unfold deliver
  split
  · exact h
  · next topic _ =>
    have hhanded := hhand ⟨topic, g.options.encodePayload message.payload, message.qos,
      message.retain, message.priority⟩
    dsimp only
    split
    · split
      · next heq =>
        rw [heq] at hhanded
        exact hhanded
      · next heq =>
        rw [heq] at hhanded
        exact hhanded
    · exact htracked _

/-! ## 5. Runs -/

/-- What every step keeps, and the wait or the end that comes after it, is kept by all of them. -/
theorem keeps_run {allowed : Step → Prop} {strand : Strand}
    (htake : ∀ s, allowed s → ∀ g, P g → P (g.take s).2)
    (hwait : ∀ hold rest, (∀ s ∈ rest, allowed s) → ∀ g, P g →
      P ((g.hold strand (.waits hold rest)).setAlarm strand hold))
    (hfinish : ∀ result g, P g → P (g.finish strand result)) {steps : List Step}
    (h : ∀ s ∈ steps, allowed s) (result : Result) {g : Gateway σ} (hg : P g) :
    P (g.run strand steps result) := by
  induction steps generalizing result g with
  | nil => exact hfinish result g hg
  | cons s rest ih =>
    have hnext := htake s (h s List.mem_cons_self) g hg
    have hrest : ∀ s ∈ rest, allowed s := fun s hs => h s (List.mem_cons_of_mem _ hs)
    rw [run]
    split
    · next heq =>
      rw [heq] at hnext
      exact ih hrest _ hnext
    · next hold g' heq =>
      rw [heq] at hnext
      exact hwait hold rest hrest g' hnext

end Uplink.Gateway
