import Uplink.Proofs.Gateway.Turns

/-!
# What there is to say about certificates

Of a gateway that announces itself, an outlook keeps what others can tell: the messages that were
handed to the transport, whether it is connected, the certificates that are kept for later, and when
they are due. What the steps of a connection make of an outlook can be foreseen, as long as the
transport takes messages when it is connected and only then.
-/

namespace Uplink.Gateway

variable {σ : Type}

/-! ## 1. Outlooks -/

structure Setting where
  options : Options
  device : Device
  clock : Clock
  handlers : SortedMap Handler
  applications : SortedMap Unit
  workers : Nat

def setting (g : Gateway σ) : Setting :=
  ⟨g.options, g.device, g.clock, g.handlers, g.applications, g.pool.size⟩

namespace Setting

def applicationIds (s : Setting) : List String :=
  (s.handlers.names.foldl (fun ids id => ids.insert id ()) s.applications).names

def certificate (kind : CertificateKind) (s : Setting) : Message :=
  Certificate.build s.clock s.options s.device s.applicationIds kind

/-- A message as it is handed over, if it has a destination. -/
def outbound (s : Setting) (m : Message) : Option Outbound :=
  match m.destination.resolve s.options with
  | .error _ => none
  | .ok topic =>
    some ⟨topic, s.options.encodePayload m.payload, m.qos, m.retain, m.priority⟩

end Setting

/-- A message that was handed to the transport, and whether it was taken. -/
def Note.handed? : Note → Option (Outbound × Bool)
  | .published message result => some (message, result.isOk)
  | _ => none

def handed (g : Gateway σ) : List (Outbound × Bool) := g.notes.filterMap Note.handed?

/-- What there is to say about the certificates of a gateway. -/
@[ext] structure Outlook where
  handed : List (Outbound × Bool)
  isUp : Bool
  kept : CertificateKind → Option Message
  /-- When the certificates that are kept are due. -/
  closesAt : Option Nat

namespace Outlook

/-- A message is handed to the transport, which takes it if it is connected. -/
def hand (s : Setting) (m : Message) (o : Outlook) : Outlook :=
  { o with handed := o.handed ++ (s.outbound m).toList.map (·, o.isUp) }

def clear (o : Outlook) : Outlook := { o with kept := fun _ => none, closesAt := none }

def batch (o : Outlook) : List Message :=
  [CertificateKind.birth, .appList, .disconnect].filterMap o.kept

def handAll (s : Setting) (messages : List Message) (o : Outlook) : Outlook :=
  messages.foldl (fun o m => o.hand s m) o

/-- What is due at a time is handed over. -/
def lapse (s : Setting) (time : Nat) (o : Outlook) : Outlook :=
  if o.closesAt.any (· ≤ time) then o.clear.handAll s o.batch else o

def foresee (s : Setting) : Step → Outlook → Outlook
  | .dropPending, o => o.clear
  | .certificate kind, o => o.hand s (s.certificate kind)
  | .flush m, o => o.hand s m
  | .closeTransport, o => { o with isUp := false }
  | _, o => o

def foreseeAll (s : Setting) (steps : List Step) (o : Outlook) : Outlook :=
  steps.foldl (fun o step => o.foresee s step) o

@[simp] theorem foreseeAll_nil (s : Setting) (o : Outlook) : o.foreseeAll s [] = o := rfl

@[simp] theorem foreseeAll_cons (s : Setting) (step : Step) (steps : List Step) (o : Outlook) :
    o.foreseeAll s (step :: steps) = (o.foresee s step).foreseeAll s steps := rfl

theorem foreseeAll_flush (s : Setting) (messages : List Message) (o : Outlook) :
    o.foreseeAll s (messages.map .flush) = o.handAll s messages := by
  rw [foreseeAll, List.foldl_map]
  rfl

@[simp] theorem hand_closesAt (s : Setting) (m : Message) (o : Outlook) :
    (o.hand s m).closesAt = o.closesAt :=
  rfl

@[simp] theorem hand_kept (s : Setting) (m : Message) (o : Outlook) :
    (o.hand s m).kept = o.kept :=
  rfl

@[simp] theorem hand_isUp (s : Setting) (m : Message) (o : Outlook) :
    (o.hand s m).isUp = o.isUp :=
  rfl

theorem handAll_closesAt (s : Setting) (messages : List Message) (o : Outlook) :
    (o.handAll s messages).closesAt = o.closesAt := by
  induction messages generalizing o with
  | nil => rfl
  | cons m messages ih => exact (ih _).trans (hand_closesAt s m o)

theorem lapse_of_not_due {s : Setting} {time : Nat} {o : Outlook}
    (h : ∀ t, o.closesAt = some t → time < t) : o.lapse s time = o := by
  rw [lapse, if_neg]
  intro hany
  cases ht : o.closesAt with
  | none =>
    rw [ht] at hany
    cases hany
  | some t =>
    have hlt := h t ht
    rw [ht, Option.any_some, decide_eq_true_eq] at hany
    omega

end Outlook

variable [Transport σ]

def outlook (g : Gateway σ) : Outlook where
  handed := g.handed
  isUp := g.isConnected
  kept := g.debouncer.kept
  closesAt := g.debouncer.window.map fun w => w.closesAt.getD (g.agenda.now + w.length)

/-! ## 2. Prompt transports -/

/-- A transport stays in order and as connected as it was. -/
def Stays (good : σ → Prop) (t t' : σ) : Prop :=
  good t → good t' ∧ Transport.isConnected t' = Transport.isConnected t

/-- While its states are in order, a transport takes whatever is published while it is connected and
acknowledges it at once, and refuses what is published while it is not. Only to connect and to close
it, or the transport itself, change whether it is connected. -/
structure IsPrompt (good : σ → Prop) : Prop where
  takes {t : σ} (m : Outbound) : good t → Transport.isConnected t = true →
    (∃ id, (Transport.publish m t).1 = .ok id) ∧
      Transport.acknowledges (Transport.publish m t).2 = true
  refuses {t : σ} (m : Outbound) : good t → Transport.isConnected t = false →
    ∃ e, (Transport.publish m t).1 = .error e
  publish (t : σ) (m : Outbound) : Stays good t (Transport.publish m t).2
  subscribe (t : σ) (filter : String) (qos : Qos) :
    Stays good t (Transport.subscribe filter qos t).2
  unsubscribe (t : σ) (filter : String) : Stays good t (Transport.unsubscribe filter t).2
  beginClose (t : σ) : Stays good t (Transport.beginClose t).2
  connect {t : σ} : good t → good (Transport.connect t).2 ∧
    Transport.isConnected (Transport.connect t).2 =
      match (Transport.connect t).1 with
      | .ok .established => true
      | _ => Transport.isConnected t
  endClose {t : σ} : good t →
    good (Transport.endClose t) ∧ Transport.isConnected (Transport.endClose t) = false

/-! ## 3. What leaves the outlook as it is -/

/-- From one gateway to the other, no message was handed to the transport, which stays in order, and
what was done besides has nothing to do with certificates. -/
structure Idle (good : σ → Prop) (g g' : Gateway σ) : Prop where
  same : g' = { g with
    transport := g'.transport, notes := g'.notes, state := g'.state
    defaultFilter := g'.defaultFilter }
  stays : Stays good g.transport g'.transport
  handed : g'.handed = g.handed

namespace Idle

variable {good : σ → Prop} {g g' g'' : Gateway σ}

theorem refl (g : Gateway σ) : Idle good g g := ⟨rfl, fun h => ⟨h, rfl⟩, rfl⟩

theorem trans (h : Idle good g g') (h' : Idle good g' g'') : Idle good g g'' := by
  refine ⟨by rw [h'.same, h.same], fun hgood => ?_, h'.handed.trans h.handed⟩
  obtain ⟨hgood', hup⟩ := h.stays hgood
  obtain ⟨hgood'', hup'⟩ := h'.stays hgood'
  exact ⟨hgood'', hup'.trans hup⟩

theorem setting (h : Idle good g g') : g'.setting = g.setting := by rw [h.same]; rfl

theorem outlook (h : Idle good g g') (hgood : good g.transport) : g'.outlook = g.outlook := by
  have hdebouncer : g'.debouncer = g.debouncer := by rw [h.same]
  have hagenda : g'.agenda = g.agenda := by rw [h.same]
  rw [Gateway.outlook, Gateway.outlook, h.handed, hdebouncer, hagenda]
  rw [isConnected, isConnected, (h.stays hgood).2]

end Idle

omit [Transport σ] in
theorem handed_note {n : Note} (h : n.handed? = none) (g : Gateway σ) :
    (g.note n).handed = g.handed := by
  show (g.notes ++ [n]).filterMap Note.handed? = _
  rw [List.filterMap_append, List.filterMap_cons_none h]
  exact List.append_nil _

theorem idle_note {good : σ → Prop} {n : Note} (h : n.handed? = none) (g : Gateway σ) :
    Idle good g (g.note n) :=
  ⟨rfl, fun h => ⟨h, rfl⟩, handed_note h g⟩

theorem idle_enter {good : σ → Prop} (state : State) (g : Gateway σ) :
    Idle good g { g with state } :=
  ⟨rfl, fun h => ⟨h, rfl⟩, rfl⟩

theorem idle_tell {good : σ → Prop} (event : ConnectionEvent) (g : Gateway σ) :
    Idle good g (g.tell event) := by
  rw [tell]
  generalize g.connectionListeners.members.filter _ = listeners
  induction listeners generalizing g with
  | nil => exact .refl g
  | cons l listeners ih => exact (idle_note rfl g).trans (ih _)

theorem idle_subscribeTo {good : σ → Prop} (hprompt : IsPrompt good) (filter : String) (qos : Qos)
    (g : Gateway σ) : Idle good g (g.subscribeTo filter qos) :=
  ⟨rfl, hprompt.subscribe g.transport filter qos,
    handed_note (n := .subscribed filter qos _) rfl { g with transport := _ }⟩

theorem idle_unsubscribeFrom {good : σ → Prop} (hprompt : IsPrompt good) (filter : String)
    (g : Gateway σ) : Idle good g (g.unsubscribeFrom filter) :=
  ⟨rfl, hprompt.unsubscribe g.transport filter,
    handed_note (n := .unsubscribed filter _) rfl { g with transport := _ }⟩

theorem idle_resubscribe {good : σ → Prop} (hprompt : IsPrompt good) (g : Gateway σ) :
    Idle good g g.resubscribe :=
  keeps_resubscribe (P := Idle good g)
    (fun filter qos g' h => h.trans (idle_subscribeTo hprompt filter qos g')) (.refl g)

theorem idle_reconcile {good : σ → Prop} (hprompt : IsPrompt good) (isNew : Bool)
    (g : Gateway σ) : Idle good g (g.reconcile isNew) :=
  keeps_reconcile (P := Idle good g)
    (fun filter qos g' h => h.trans (idle_subscribeTo hprompt filter qos g'))
    (fun filter g' h => h.trans (idle_unsubscribeFrom hprompt filter g'))
    (fun _ _ h => h.trans ⟨rfl, fun h => ⟨h, rfl⟩, rfl⟩) isNew (.refl g)

end Uplink.Gateway
