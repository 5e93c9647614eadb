import Uplink.Proofs.Certificate.Contents
import Uplink.Proofs.Gateway.Events
import Uplink.Proofs.Gateway.Settling
import Uplink.Proofs.Options

/-!
# Announcers

An announcer is what a gateway comes down to for those who want to know what it says about itself: a
connection that is up or down, a slot for each kind of certificate, and one timer. Whatever happens to
a gateway on a prompt transport, it hands the certificates to the transport that an announcer hands
over, and no others, in the same order.
-/

namespace Uplink.Gateway

variable {σ : Type}

/-! ## 1. Announcers -/

/-- A certificate, with the applications that it lists and the options that it was made with. -/
structure Announcement where
  kind : CertificateKind
  applications : List String
  options : Options

/-- A certificate that was handed to the transport with the options of that time. -/
structure Handing where
  announcement : Announcement
  options : Options
  isTaken : Bool

/-- A gateway, as far as it announces itself. -/
structure Announcer extends Setting where
  isUp : Bool
  slots : CertificateKind → Option Announcement := fun _ => none
  /-- When the slots that are filled are due. -/
  timer : Option Nat := none
  now : Nat := 0
  handed : List Handing := []

def Announcement.message (clock : Clock) (device : Device) (x : Announcement) : Message :=
  Certificate.build clock x.options device x.applications x.kind

def Handing.outbound (clock : Clock) (device : Device) (h : Handing) : Outbound :=
  let made := h.announcement.options
  let kind := h.announcement.kind
  let target := Certificate.target made (kind.suffix made)
  ⟨h.options.topic none target.1 target.2 true,
    h.options.encodePayload
      (Certificate.payload clock made device h.announcement.applications kind),
    made.lifecycleGuarantee, made.lifecycleRetain, made.lifecyclePriority⟩

namespace Announcer

def new (options : Options) (device : Device) (clock : Clock) (isUp : Bool) : Announcer where
  options := options
  device := device
  clock := clock
  handlers := .empty
  applications := .empty
  workers := options.dispatchWorkers
  isUp := isUp

def announcement (kind : CertificateKind) (a : Announcer) : Announcement :=
  ⟨kind, a.applicationIds, a.options⟩

/-- A certificate is handed over, and taken if the connection is up. -/
def hand (a : Announcer) (x : Announcement) : Announcer :=
  { a with handed := a.handed ++ [⟨x, a.options, a.isUp⟩] }

def clear (a : Announcer) : Announcer := { a with slots := fun _ => none, timer := none }

def establish (a : Announcer) : Announcer := a.clear.hand (a.announcement .birth)

def leave (a : Announcer) : Announcer := a.clear.hand (a.announcement .disconnect)

/-- While the connection is up, a slot is filled and the timer begins anew. -/
def request (kind : CertificateKind) (a : Announcer) : Announcer :=
  if a.isUp then
    { a with
      slots := fun k => if k = kind then some (a.announcement kind) else a.slots k
      timer := some (a.now + a.options.republishDelayMs) }
  else a

/-- When the time has come, the slots are emptied and what was in them is handed over. -/
def expire (a : Announcer) : Announcer :=
  if a.timer.any (· ≤ a.now) then
    ([CertificateKind.birth, .appList, .disconnect].filterMap a.slots).foldl hand a.clear
  else a

/-- Options that are refused change nothing. -/
def configure (options : Options) (a : Announcer) : Announcer :=
  if options.validate.isOk && options.dispatchWorkers == a.workers then
    request .birth { a with options }
  else a

variable [Transport σ]

def connect (t : σ) (a : Announcer) : Announcer :=
  if connects t then establish { a with isUp := true } else a

def call (t : σ) : Call → Announcer → Announcer
  | .start, a => if a.isUp then a.establish else a.connect t
  | .connect, a => a.connect t
  | .disconnect, a =>
    if a.isUp && (Transport.beginClose t).1.isOk then { a.leave with isUp := false } else a
  | .callback .established, a => a.establish
  | .callback .disconnecting, a => a.leave
  | _, a => a

end Announcer

/-! ## 2. Moves -/

/-- What may happen to a gateway that announces itself. -/
inductive Move (σ : Type) where
  | ask (caller : Caller) (call : Call)
  /-- The transport changes by itself: its link comes up, or is lost. -/
  | link (transport : σ)
  | configure (options : Options)
  | registerHandler (app : String) (handler : Handler)
  | unregisterHandler (app : String)
  | registerApplication (app : String)
  | unregisterApplication (app : String)
  | platform (event : PlatformEvent)
  | pass (ms : Nat)

variable [Transport σ]

def Move.apply : Move σ → Gateway σ → Gateway σ
  | .ask caller call, g => g.ask caller call
  | .link transport, g => { g with transport }
  | .configure options, g => ((g.configure options).toOption).getD g
  | .registerHandler app handler, g => g.registerHandler app handler
  | .unregisterHandler app, g => (g.unregisterHandler app).2
  | .registerApplication app, g => g.registerApplication app
  | .unregisterApplication app, g => (g.unregisterApplication app).2
  | .platform event, g => g.platformEvent event
  | .pass ms, g => Timed.pass ms g

/-- The gateway when everybody has done what there is to do after a move. -/
def play (m : Move σ) (g : Gateway σ) : Gateway σ := Timed.settle (m.apply g)

def plays (moves : List (Move σ)) (g : Gateway σ) : Gateway σ :=
  moves.foldl (fun g m => g.play m) g

namespace Announcer

/-- What an announcer makes of a move. The transport answers when it is told to connect or to
close. -/
def hear (t : σ) : Move σ → Announcer → Announcer
  | .ask _ call, a => a.call t call
  | .link transport, a => { a with isUp := Transport.isConnected transport }
  | .configure options, a => a.configure options
  | .registerHandler app handler, a =>
    request .appList { a with handlers := a.handlers.insert app handler }
  | .unregisterHandler app, a =>
    if a.handlers.contains app then request .appList { a with handlers := a.handlers.erase app }
    else a
  | .registerApplication app, a =>
    if a.applications.contains app then a
    else request .appList { a with applications := a.applications.insert app () }
  | .unregisterApplication app, a =>
    if a.applications.contains app then
      request .appList { a with applications := a.applications.erase app }
    else a
  | .platform event, a => if announces a.options event then a.request .birth else a
  | .pass ms, a => { a with now := a.now + ms }

/-- The announcer after moves of a gateway. -/
def follow : List (Move σ) → Gateway σ → Announcer → Announcer
  | [], _, a => a
  | m :: moves, g, a => follow moves (g.play m) (a.hear g.transport m).expire

end Announcer

/-- No suffix of a certificate begins with the separator. -/
def HasNames (o : Options) : Prop :=
  ∀ kind : CertificateKind, ¬o.separator.toList <+: (kind.suffix o).toList

/-- A move that leaves the transport prompt, the gateway running and its certificates with a place to
go to. -/
def Move.IsFair (good : σ → Prop) : Move σ → Prop
  | .ask _ call => call.announces
  | .link transport => good transport
  | .configure options => HasNames options
  | _ => True

/-! ## 3. Names -/

theorem cutChars_fst_ne_nil {sep cs before after : List Char} (h : ¬sep <+: cs)
    (hcut : Levels.cutChars sep cs = some (before, after)) : before ≠ [] := by
  cases cs with
  | nil =>
    cases sep with
    | nil => exact absurd List.prefix_rfl h
    | cons => cases hcut
  | cons c cs =>
    rw [Levels.cutChars, if_neg fun hp => h (List.isPrefixOf_iff_prefix.1 hp)] at hcut
    obtain ⟨cut, -, heq⟩ := Option.map_eq_some_iff.1 hcut
    rw [← (Prod.mk.inj heq).1]
    exact List.cons_ne_nil _ _

/-- A suffix that does not begin with the separator names an application. -/
theorem places_of_hasNames {o : Options} (hvalid : o.validate = .ok ()) (h : HasNames o)
    (kind : CertificateKind) : places o kind = true := by
  rw [places, Certificate.target, Levels.cut, Bool.not_eq_true']
  cases hcut : Levels.cutChars o.separator.toList (kind.suffix o).toList with
  | none =>
    exact Bool.eq_false_iff.2 (mt String.isEmpty_iff.1 ((Options.inOrder_of_validate hvalid).suffix kind))
  | some cut =>
    obtain ⟨before, after⟩ := cut
    have hne := cutChars_fst_ne_nil (h kind) hcut
    show (String.ofList before).isEmpty = false
    rw [← Bool.not_eq_true, String.isEmpty_iff]
    intro heq
    apply hne
    rw [← String.toList_ofList (l := before), heq]
    rfl

/-! ## 4. What is said of an announcer -/

def Announcer.outbound (a : Announcer) : List (Outbound × Bool) :=
  a.handed.map fun h => (h.outbound a.clock a.device, h.isTaken)

/-- What is read of a message that was handed over is what was to be announced. -/
def Handing.ReadsBack (h : Handing) (m : Outbound × Bool) : Prop :=
  m.2 = h.isTaken ∧ (h.options.encoding.Measures m.1.payload →
    Certificate.read (h.options.decodePayload m.1.payload) =
      (h.announcement.kind, Certificate.listed h.announcement.applications h.announcement.kind))

/-- What an announcer looks like from outside. -/
def Announcer.outlook (a : Announcer) : Outlook where
  handed := a.outbound
  isUp := a.isUp
  kept kind := (a.slots kind).map fun x => x.message a.clock a.device
  closesAt := a.timer

/-- Everything that is announced has a place to go to. -/
structure Announcer.IsPlaced (a : Announcer) : Prop where
  options : ∀ kind, places a.options kind
  slots : ∀ kind x, a.slots kind = some x → ∀ kind, places x.options kind

namespace Announcer

variable {a : Announcer}

theorem outbound_message {a : Announcer} {x : Announcement} (h : ∀ kind, places x.options kind) :
    a.toSetting.outbound (x.message a.clock a.device) =
      some (Handing.outbound a.clock a.device ⟨x, a.options, a.isUp⟩) := by
  have hempty : (Certificate.target x.options (x.kind.suffix x.options)).1.isEmpty = false := by
    have hplaces := h x.kind
    rw [places, Bool.not_eq_true'] at hplaces
    exact hplaces
  have hresolve : (x.message a.clock a.device).destination.resolve a.options =
      .ok (Handing.outbound a.clock a.device ⟨x, a.options, a.isUp⟩).topic :=
    if_neg (Bool.eq_false_iff.1 hempty)
  rw [Setting.outbound, hresolve]
  rfl

theorem outlook_hand {x : Announcement} (h : ∀ kind, places x.options kind) :
    (a.hand x).outlook = a.outlook.hand a.toSetting (x.message a.clock a.device) := by
  rw [Outlook.hand, outbound_message h]
  refine Outlook.ext ?_ rfl rfl rfl
  exact List.map_append

theorem outlook_announcement (h : a.IsPlaced) (kind : CertificateKind) :
    (a.clear.hand (a.announcement kind)).outlook =
      a.outlook.clear.hand a.toSetting (a.toSetting.certificate kind) :=
  outlook_hand (a := a.clear) h.options

theorem outlook_foldl_hand {list : List Announcement}
    (h : ∀ x ∈ list, ∀ kind, places x.options kind) :
    (list.foldl hand a).outlook =
      a.outlook.handAll a.toSetting (list.map fun x => x.message a.clock a.device) := by
  induction list generalizing a with
  | nil => rfl
  | cons x list ih =>
    rw [List.foldl_cons, ih fun y hy => h y (List.mem_cons_of_mem _ hy),
      outlook_hand (h x List.mem_cons_self)]
    rfl

theorem outlook_expire (h : a.IsPlaced) :
    a.expire.outlook = a.outlook.lapse a.toSetting a.now := by
  rw [expire, Outlook.lapse]
  show Announcer.outlook (if a.timer.any _ = true then _ else _) =
    if a.timer.any _ = true then _ else _
  split
  · have hbatch : a.outlook.batch =
        ([CertificateKind.birth, .appList, .disconnect].filterMap a.slots).map fun x =>
          x.message a.clock a.device := by
      rw [List.map_filterMap]
      rfl
    rw [hbatch, outlook_foldl_hand]
    · rfl
    · intro x hx
      obtain ⟨kind, -, hslot⟩ := List.mem_filterMap.1 hx
      exact h.slots kind x hslot
  · rfl

/-- An announcer that has said more: nothing was changed, and no slot was filled. -/
structure HasSaid (a a' : Announcer) : Prop where
  setting : a'.toSetting = a.toSetting
  now : a'.now = a.now
  slots : ∀ kind x, a'.slots kind = some x → a.slots kind = some x

omit [Transport σ] in
theorem HasSaid.isPlaced {a' : Announcer} (h : HasSaid a a') (hplaced : a.IsPlaced) :
    a'.IsPlaced := by
  refine ⟨?_, fun kind x hx => hplaced.slots kind x (h.slots kind x hx)⟩
  rw [h.setting]
  exact hplaced.options

theorem hasSaid_refl (a : Announcer) : HasSaid a a := ⟨rfl, rfl, fun _ _ h => h⟩

theorem hasSaid_clear_hand (x : Announcement) (a : Announcer) : HasSaid a (a.clear.hand x) := by
  refine ⟨rfl, rfl, fun kind y hy => ?_⟩
  rw [show (a.clear.hand x).slots kind = none from rfl] at hy
  cases hy

theorem hasSaid_establish (a : Announcer) : HasSaid a a.establish :=
  hasSaid_clear_hand (a.announcement .birth) a

theorem hasSaid_leave (a : Announcer) : HasSaid a a.leave :=
  hasSaid_clear_hand (a.announcement .disconnect) a

theorem hasSaid_foldl_hand (list : List Announcement) (a : Announcer) :
    HasSaid a (list.foldl hand a) := by
  induction list generalizing a with
  | nil => exact hasSaid_refl a
  | cons x list ih =>
    obtain ⟨hsetting, hnow, hslots⟩ := ih (a.hand x)
    exact ⟨hsetting, hnow, hslots⟩

theorem hasSaid_expire (a : Announcer) : HasSaid a a.expire := by
  rw [expire]
  split
  · obtain ⟨hsetting, hnow, hslots⟩ := hasSaid_foldl_hand
      ([CertificateKind.birth, .appList, .disconnect].filterMap a.slots) a.clear
    exact ⟨hsetting, hnow, fun kind x hx => absurd (hslots kind x hx).symm (Option.some_ne_none x)⟩
  · exact hasSaid_refl a

theorem hasSaid_connect (t : σ) (a : Announcer) : HasSaid a (a.connect t) := by
  rw [connect]
  split
  · obtain ⟨hsetting, hnow, hslots⟩ := hasSaid_establish { a with isUp := true }
    exact ⟨hsetting, hnow, hslots⟩
  · exact hasSaid_refl a

theorem hasSaid_call (t : σ) (call : Call) (a : Announcer) : HasSaid a (a.call t call) := by
  cases call with
  | start =>
    rw [Announcer.call]
    split
    · exact hasSaid_establish a
    · exact hasSaid_connect t a
  | connect => exact hasSaid_connect t a
  | disconnect =>
    rw [Announcer.call]
    split
    · obtain ⟨hsetting, hnow, hslots⟩ := hasSaid_leave a
      exact ⟨hsetting, hnow, hslots⟩
    · exact hasSaid_refl a
  | shutDown | publish => exact hasSaid_refl a
  | callback c =>
    cases c with
    | established => exact hasSaid_establish a
    | disconnecting => exact hasSaid_leave a
    | disconnected | lost => exact hasSaid_refl a

theorem outlook_establish (h : a.IsPlaced) :
    a.establish.outlook = a.outlook.foreseeAll a.toSetting (callbackSteps .established) :=
  outlook_announcement h .birth

theorem outlook_leave (h : a.IsPlaced) :
    a.leave.outlook = a.outlook.foreseeAll a.toSetting (callbackSteps .disconnecting) :=
  outlook_announcement h .disconnect

theorem outlook_connect (h : a.IsPlaced) (t : σ) :
    (a.connect t).outlook = a.outlook.connect t a.toSetting := by
  rw [connect, Outlook.connect]
  split
  · exact outlook_establish (a := { a with isUp := true }) ⟨h.options, h.slots⟩
  · rfl

theorem outlook_call (h : a.IsPlaced) (t : σ) (call : Call) :
    (a.call t call).outlook = a.outlook.call t a.toSetting call := by
  cases call with
  | start =>
    rw [Announcer.call, Outlook.call]
    show Announcer.outlook (if a.isUp = true then _ else _) = if a.isUp = true then _ else _
    split
    · exact outlook_establish h
    · exact outlook_connect h t
  | connect => exact outlook_connect h t
  | disconnect =>
    rw [Announcer.call, Outlook.call]
    show Announcer.outlook (if (a.isUp && _) = true then _ else _) =
      if (a.isUp && _) = true then _ else _
    split
    · have hleave := outlook_leave h
      exact congrArg (fun o : Outlook => { o with isUp := false }) hleave
    · rfl
  | shutDown | publish => rfl
  | callback c =>
    cases c with
    | established => exact outlook_establish h
    | disconnecting => exact outlook_leave h
    | disconnected | lost => rfl

omit [Transport σ] in
theorem timer_foldl_hand (list : List Announcement) (a : Announcer) :
    (list.foldl hand a).timer = a.timer := by
  induction list generalizing a with
  | nil => rfl
  | cons x list ih => exact ih (a.hand x)

/-- What has been handed over is not handed over again. -/
theorem expire_expire (a : Announcer) : a.expire.expire = a.expire := by
  by_cases hdue : a.timer.any (· ≤ a.now) = true
  · have htimer : a.expire.timer = none := by
      rw [expire, if_pos hdue, timer_foldl_hand]
      rfl
    rw [expire, htimer]
    rfl
  · rw [expire, expire, if_neg hdue, if_neg hdue]

/-- Whatever an announcer hears, the clock that it looks at and the device that it speaks of are the
same. -/
theorem clock_hear (t : σ) (m : Move σ) (a : Announcer) :
    (a.hear t m).expire.clock = a.clock ∧ (a.hear t m).expire.device = a.device := by
  have hrequest (kind : CertificateKind) (b : Announcer) :
      (b.request kind).clock = b.clock ∧ (b.request kind).device = b.device := by
    rw [request]
    split <;> exact ⟨rfl, rfl⟩
  rw [(hasSaid_expire _).setting]
  cases m with
  | ask caller call =>
    rw [hear, (hasSaid_call t call a).setting]
    exact ⟨rfl, rfl⟩
  | registerHandler app handler => exact hrequest .appList _
  | configure options =>
    rw [hear, Announcer.configure]
    split
    · exact hrequest .birth _
    · exact ⟨rfl, rfl⟩
  | unregisterHandler app | unregisterApplication app =>
    rw [hear]
    split
    · exact hrequest .appList _
    · exact ⟨rfl, rfl⟩
  | registerApplication app =>
    rw [hear]
    split
    · exact ⟨rfl, rfl⟩
    · exact hrequest .appList _
  | platform event =>
    rw [hear]
    split
    · exact hrequest .birth _
    · exact ⟨rfl, rfl⟩
  | link transport | pass ms => exact ⟨rfl, rfl⟩

theorem clock_follow (moves : List (Move σ)) (g : Gateway σ) (a : Announcer) :
    (a.follow moves g).clock = a.clock ∧ (a.follow moves g).device = a.device := by
  induction moves generalizing g a with
  | nil => exact ⟨rfl, rfl⟩
  | cons m moves ih =>
    obtain ⟨hclock, hdevice⟩ := clock_hear g.transport m a
    exact ⟨(ih ..).1.trans hclock, (ih ..).2.trans hdevice⟩

end Announcer

/-! ## 5. What is read of it -/

theorem Handing.readsBack {clock : Clock} {device : Device}
    (htimes : Certificate.HasTimes clock device) (h : Handing) :
    h.ReadsBack (h.outbound clock device, h.isTaken) :=
  ⟨rfl, fun hsize => Certificate.read_decodePayload rfl htimes _ _ _ hsize⟩

/-- The payload of what was handed over. -/
def Handing.payload (clock : Clock) (device : Device) (h : Handing) : Payload :=
  Certificate.payload clock h.announcement.options device h.announcement.applications
    h.announcement.kind

theorem Handing.measures_outbound {clock : Clock} {device : Device} {count limit : Nat}
    (h : Handing) (hcount : (h.payload clock device).metrics.entries.length ≤ count)
    (hwithin : Payload.Binary.Within limit (h.payload clock device))
    (hsize : 2 * ((limit + 200) * (count + 3)) + 23 < UInt64.size) :
    h.options.encoding.Measures (h.outbound clock device).payload := by
  refine Options.measures_encodePayload hwithin (Nat.lt_of_le_of_lt ?_ hsize)
  exact Nat.add_le_add_right (Nat.mul_le_mul_left 2 (Nat.mul_le_mul_left _
    (Nat.add_le_add_right hcount 3))) 23

theorem Announcer.measures_outbound {a : Announcer} {o : Options} {count limit : Nat}
    (ho : ∀ h ∈ a.handed, h.options = o)
    (hshort : ∀ h ∈ a.handed, (h.payload a.clock a.device).metrics.entries.length ≤ count ∧
      Payload.Binary.Within limit (h.payload a.clock a.device))
    (hsize : 2 * ((limit + 200) * (count + 3)) + 23 < UInt64.size) :
    ∀ m ∈ a.outbound, o.encoding.Measures m.1.payload := by
  rw [outbound, List.forall_mem_map]
  intro h hh
  obtain ⟨hcount, hwithin⟩ := hshort h hh
  have hmeasures := h.measures_outbound hcount hwithin hsize
  rwa [ho h hh] at hmeasures

theorem Announcer.readsBack_outbound {a : Announcer}
    (htimes : Certificate.HasTimes a.clock a.device) :
    List.Forall₂ Handing.ReadsBack a.handed a.outbound := by
  rw [outbound, List.forall₂_map_right_iff, List.forall₂_same]
  exact fun h _ => h.readsBack htimes

/-- With one and the same options for all messages, what is read of them is a list of what was to be
announced. -/
theorem map_read_of_forall₂ {hs : List Handing} {ms : List (Outbound × Bool)}
    (h : List.Forall₂ Handing.ReadsBack hs ms) {o : Options} (ho : ∀ x ∈ hs, x.options = o)
    (hsize : ∀ m ∈ ms, o.encoding.Measures m.1.payload) :
    ms.map (fun m => (Certificate.read (o.decodePayload m.1.payload), m.2)) =
      hs.map fun x => ((x.announcement.kind,
        Certificate.listed x.announcement.applications x.announcement.kind), x.isTaken) := by
  induction h with
  | nil => rfl
  | cons hx _ ih =>
    obtain ⟨hoptions, ho⟩ := List.forall_mem_cons.1 ho
    obtain ⟨hlength, hsize⟩ := List.forall_mem_cons.1 hsize
    rw [List.map_cons, List.map_cons, ih ho hsize, ← hx.2 (hoptions ▸ hlength), hx.1, hoptions]

omit [Transport σ] in
/-- A certificate that a gateway makes lists the applications that it has at the time. -/
theorem read_certified {g : Gateway σ} (htimes : Certificate.HasTimes g.clock g.device)
    (kind : CertificateKind) (hsize : g.options.encoding.Measures (g.certified kind).payload) :
    Certificate.read (g.options.decodePayload (g.certified kind).payload) =
      (kind, Certificate.listed g.applicationIds kind) :=
  Certificate.read_decodePayload rfl htimes _ _ _ hsize

/-! ## 6. An announcer for a gateway -/

/-- An announcer says what a gateway says. -/
structure Tells (good : σ → Prop) (g : Gateway σ) (a : Announcer) : Prop where
  going : Going good g none
  setting : g.setting = a.toSetting
  outlook : g.outlook = a.outlook
  now : g.agenda.now = a.now
  placed : a.IsPlaced

namespace Tells

variable {good : σ → Prop} {g g' : Gateway σ} {a : Announcer}

theorem isUp (h : Tells good g a) : g.isConnected = a.isUp := congrArg Outlook.isUp h.outlook

theorem handed_eq_outbound (h : Tells good g a) : g.handed = a.outbound :=
  congrArg Outlook.handed h.outlook

theorem options_eq (h : Tells good g a) : g.options = a.options :=
  congrArg Setting.options h.setting

theorem clock_eq (h : Tells good g a) : g.clock = a.clock := congrArg Setting.clock h.setting

theorem device_eq (h : Tells good g a) : g.device = a.device := congrArg Setting.device h.setting

/-- The times that certificates tell stay those of the beginning. -/
theorem hasTimes_iff {moves : List (Move σ)} {start : Gateway σ}
    (h : Tells good g (a.follow moves start)) :
    Certificate.HasTimes g.clock g.device ↔ Certificate.HasTimes a.clock a.device := by
  obtain ⟨hclock, hdevice⟩ := Announcer.clock_follow moves start a
  rw [h.clock_eq, h.device_eq, hclock, hdevice]

theorem idle (h : Tells good g a) (hidle : Idle good g g') : Tells good g' a := by
  obtain ⟨hgoing, hsetting, houtlook, hnow, -⟩ := Made.of_idle h.going hidle nothing
  exact ⟨hgoing, hsetting.trans h.setting, houtlook.trans h.outlook, hnow.trans h.now, h.placed⟩

theorem withHandlers (h : Tells good g a) (handlers : SortedMap Handler) :
    Tells good { g with handlers } { a with handlers } where
  going := h.going.of_parts rfl h.going.good h.going.pool rfl rfl nobody_sends rfl rfl rfl
  setting := congrArg (fun s : Setting => { s with handlers }) h.setting
  outlook := h.outlook
  now := h.now
  placed := ⟨h.placed.options, h.placed.slots⟩

theorem withApplications (h : Tells good g a) (applications : SortedMap Unit) :
    Tells good { g with applications } { a with applications } where
  going := h.going.of_parts rfl h.going.good h.going.pool rfl rfl nobody_sends rfl rfl rfl
  setting := congrArg (fun s : Setting => { s with applications }) h.setting
  outlook := h.outlook
  now := h.now
  placed := ⟨h.placed.options, h.placed.slots⟩

theorem request (h : Tells good g a) (kind : CertificateKind) :
    Tells good (if g.isConnected then g.schedule kind else g) (a.request kind) := by
  rw [Announcer.request, h.isUp]
  split
  · refine ⟨going_schedule h.going kind, h.setting, ?_, ?_, h.placed.options, fun k x hx => ?_⟩
    · rw [outlook_schedule, h.outlook, h.setting, h.now, h.options_eq]
      refine Outlook.ext rfl rfl (funext fun k => ?_) rfl
      show (if k = kind then _ else _) = Option.map _ (if k = kind then _ else _)
      split <;> rfl
    · show (g.agenda.wakeAll _).now = _
      rw [Agenda.wakeAll_eq]
      exact h.now
    · dsimp only at hx
      split at hx
      · cases hx
        exact h.placed.options
      · exact h.placed.slots k x hx
  · exact h

theorem settle (hprompt : IsPrompt good) (h : Tells good g a) :
    Tells good (Timed.settle g) a.expire ∧ (Timed.settle g).agenda.ready = [] := by
  obtain ⟨⟨hgoing, hready⟩, hsetting, houtlook, hnow⟩ := settled_settle hprompt h.going
  have hsaid := a.hasSaid_expire
  refine ⟨⟨hgoing, ?_, ?_, ?_, hsaid.isPlaced h.placed⟩, hready⟩
  · rw [hsetting, hsaid.setting, h.setting]
  · rw [houtlook, Announcer.outlook_expire h.placed, h.outlook, h.setting, h.now]
  · rw [hnow, hsaid.now, h.now]

theorem configure (hprompt : IsPrompt good) (h : Tells good g a) {options : Options}
    (hnames : HasNames options) :
    Tells good (((g.configure options).toOption).getD g) (a.configure options) := by
  have hworkers : g.pool.size = a.workers := congrArg Setting.workers h.setting
  rw [Gateway.configure, Announcer.configure, hworkers]
  cases hvalid : options.validate with
  | error fault => exact h
  | ok valid =>
    let accepts : Bool := (Except.ok valid : Except OptionsFault Unit).isOk &&
      options.dispatchWorkers == a.workers
    dsimp only
    -- Options with another number of workers are refused.
    by_cases hsame : options.dispatchWorkers = a.workers
    · have haccepts : accepts = true := beq_iff_eq.2 hsame
      rw [if_pos hsame, if_pos haccepts]
      have hplaces := places_of_hasNames hvalid hnames
      have hchanged : Tells good { g with options } { a with options } := by
        refine ⟨?_, ?_, h.outlook, h.now, hplaces, h.placed.slots⟩
        · exact h.going.of_parts rfl h.going.good h.going.pool rfl rfl nobody_sends rfl rfl rfl
        · exact congrArg (fun s : Setting => { s with options }) h.setting
      have hasked := hchanged.request .birth
      show Tells good (if g.isConnected then _ else _) _
      by_cases hup : g.isConnected = true
      · rw [if_pos hup]
        rw [if_pos (show isConnected { g with options } = true from hup)] at hasked
        exact hasked.idle (idle_reconcile hprompt false _)
      · rw [if_neg hup]
        rw [if_neg (show ¬isConnected { g with options } = true from hup)] at hasked
        exact hasked
    · have hrefuses : ¬accepts = true := fun heq => hsame (beq_iff_eq.1 heq)
      rw [if_neg hsame, if_neg hrefuses]
      exact h

theorem ask (hprompt : IsPrompt good) (h : Tells good g a) (hready : g.agenda.ready = [])
    (caller : Caller) {call : Call} (hm : (Move.ask caller call : Move σ).IsFair good) :
    Tells good (g.play (.ask caller call)) (a.hear g.transport (.ask caller call)).expire ∧
      (g.play (.ask caller call)).agenda.ready = [] := by
  obtain ⟨⟨⟨hgoing, hready'⟩, hsetting, houtlook, hnow⟩, -⟩ :=
    settled_ask hprompt ⟨h.going, hready⟩ hm caller
  have hcall := a.hasSaid_call g.transport call
  have hsaid := (a.call g.transport call).hasSaid_expire
  have hplaced := hcall.isPlaced h.placed
  refine ⟨⟨hgoing, ?_, ?_, ?_, hsaid.isPlaced hplaced⟩, hready'⟩
  · rw [Gateway.play, Move.apply, hsetting, h.setting]
    exact (hsaid.setting.trans hcall.setting).symm
  · rw [Gateway.play, Move.apply, houtlook, Announcer.hear, Announcer.outlook_expire hplaced,
      Announcer.outlook_call h.placed, hcall.setting, hcall.now, h.outlook, h.setting, h.now]
  · rw [Gateway.play, Move.apply, hnow, h.now]
    exact (hsaid.now.trans hcall.now).symm

theorem pass (hprompt : IsPrompt good) (h : Tells good g a) (ms : Nat) :
    Tells good (Timed.pass ms g) ({ a with now := a.now + ms } : Announcer).expire := by
  obtain ⟨⟨hgoing, -⟩, hsetting, houtlook, hnow⟩ := settled_pass hprompt h.going ms
  let later : Announcer := { a with now := a.now + ms }
  have hplaced : later.IsPlaced := ⟨h.placed.options, h.placed.slots⟩
  have hsaid := later.hasSaid_expire
  refine ⟨hgoing, ?_, ?_, ?_, hsaid.isPlaced hplaced⟩
  · rw [hsetting, h.setting]
    exact hsaid.setting.symm
  · rw [houtlook, Announcer.outlook_expire hplaced, h.outlook, h.setting, h.now]
    rfl
  · rw [hnow, h.now]
    exact hsaid.now.symm

theorem link (h : Tells good g a) {transport : σ} (hgood : good transport) :
    Tells good { g with transport } (a.hear g.transport (.link transport)) := by
  refine ⟨?_, h.setting, ?_, h.now, h.placed.options, h.placed.slots⟩
  · exact h.going.of_parts rfl hgood h.going.pool rfl rfl nobody_sends rfl rfl rfl
  · exact congrArg (fun o : Outlook => { o with isUp := Transport.isConnected transport }) h.outlook

/-- **An announcer says after a move what the gateway says.** -/
theorem play (hprompt : IsPrompt good) (h : Tells good g a) (hready : g.agenda.ready = [])
    {m : Move σ} (hm : m.IsFair good) :
    Tells good (g.play m) (a.hear g.transport m).expire ∧ (g.play m).agenda.ready = [] := by
  have hhandlers : g.handlers = a.handlers := congrArg Setting.handlers h.setting
  have happlications : g.applications = a.applications := congrArg Setting.applications h.setting
  -- A move is heard by the announcer as it is made, and what it leaves to be done is done.
  cases m with
  | ask caller call => exact h.ask hprompt hready caller hm
  | pass ms =>
    have hsettled := (h.pass hprompt ms).settle hprompt
    rw [Announcer.expire_expire] at hsettled
    exact hsettled
  | link transport => exact (h.link hm).settle hprompt
  | configure options => exact (h.configure hprompt hm).settle hprompt
  | registerHandler app handler =>
    refine Tells.settle hprompt ?_
    rw [Announcer.hear, ← hhandlers]
    exact (h.withHandlers _).request .appList
  | unregisterHandler app =>
    refine Tells.settle hprompt ?_
    rw [Move.apply, unregisterHandler, Announcer.hear, ← hhandlers]
    split
    · exact (h.withHandlers _).request .appList
    · exact h
  | registerApplication app =>
    refine Tells.settle hprompt ?_
    rw [Move.apply, registerApplication, Announcer.hear, ← happlications]
    split
    · exact h
    · exact (h.withApplications _).request .appList
  | unregisterApplication app =>
    refine Tells.settle hprompt ?_
    rw [Move.apply, unregisterApplication, Announcer.hear, ← happlications]
    split
    · exact (h.withApplications _).request .appList
    · exact h
  | platform event =>
    refine Tells.settle hprompt ?_
    have hasked := h.request .birth
    rw [Move.apply, platformEvent, Announcer.hear, h.options_eq]
    cases announces a.options event with
    | false =>
      rw [Bool.and_false]
      exact h
    | true =>
      rw [Bool.and_true]
      exact hasked

theorem of_create {options : Options} {transport : σ} {device : Device} {clock : Clock}
    {verifier : Option (Topic → Payload → Bool)}
    (hcreate : create options transport device clock verifier = .ok g) (hgood : good transport)
    (hnames : HasNames options) :
    Tells good g (.new options device clock (Transport.isConnected transport)) := by
  rw [create] at hcreate
  cases hvalid : options.validate with
  | error fault =>
    rw [hvalid] at hcreate
    cases hcreate
  | ok _ =>
    rw [hvalid] at hcreate
    cases hcreate
    have hsize : (Pool.ofSize options.dispatchWorkers : Pool (List Step)).size =
        options.dispatchWorkers := by
      have hworkers := (Options.inOrder_of_validate hvalid).dispatchWorkers
      rw [Pool.size, Pool.ofSize, List.length_replicate]
      omega
    have hplaces := places_of_hasNames hvalid hnames
    refine ⟨⟨rfl, hgood, Pool.isIdle_ofSize _, List.nodup_nil, List.forall_mem_nil _, nobody_sends, ?_,
      ?_⟩, ?_, rfl, ?_, hplaces, ?_⟩
    · intro w hw
      cases hw
    · show ∀ e ∈ (Agenda.wakeAll _ _).alarms, _
      rw [Agenda.wakeAll_eq]
      exact List.forall_mem_nil _
    · exact congrArg (Setting.mk options device clock .empty .empty) hsize
    · show (Agenda.wakeAll _ _).now = 0
      rw [Agenda.wakeAll_eq]
    · intro kind x hx
      cases hx

theorem plays (hprompt : IsPrompt good) {moves : List (Move σ)} (h : Tells good g a)
    (hready : g.agenda.ready = []) (hmoves : ∀ m ∈ moves, m.IsFair good) :
    Tells good (g.plays moves) (a.follow moves g) ∧ (g.plays moves).agenda.ready = [] := by
  induction moves generalizing g a with
  | nil => exact ⟨h, hready⟩
  | cons m moves ih =>
    obtain ⟨hplayed, hready'⟩ := h.play hprompt hready (hmoves m List.mem_cons_self)
    exact ih hplayed hready' fun m hm => hmoves m (List.mem_cons_of_mem _ hm)

end Tells

theorem announces_of_establishes {t : σ} {call : Call} (h : call.establishes t = true) :
    call.announces := by
  cases call with
  | start | connect | callback => rfl
  | disconnect | shutDown | publish => cases h

/-- **A gateway on a prompt transport hands over what its announcer hands over.** Whatever happens to
it, the messages that it hands to the transport, and whether they are taken, are those of the
announcer, and whoever reads them finds the kinds and the applications that were to be announced. On
a new connection its birth, with the applications that there are, is handed over before anything
else is done. -/
theorem handed_plays {good : σ → Prop} (hprompt : IsPrompt good) {options : Options}
    {transport : σ} {device : Device} {clock : Clock}
    {verifier : Option (Topic → Payload → Bool)} {g : Gateway σ}
    (hcreate : create options transport device clock verifier = .ok g) (hgood : good transport)
    (hnames : HasNames options) {moves : List (Move σ)} (hmoves : ∀ m ∈ moves, m.IsFair good) :
    let start := Timed.settle g
    let g' := start.plays moves
    let a := Announcer.new options device clock (Transport.isConnected transport)
    g'.handed = (a.follow moves start).outbound ∧
      (Certificate.HasTimes clock device →
        List.Forall₂ Handing.ReadsBack (a.follow moves start).handed g'.handed) ∧
      ∀ caller call, call.establishes g'.transport = true →
        (∃ taken, g'.notes ++ [.published (g'.certified .birth) taken] <+:
          (g'.play (.ask caller call)).notes) ∧
        (Certificate.HasTimes clock device →
          g'.options.encoding.Measures (g'.certified .birth).payload →
          Certificate.read (g'.options.decodePayload (g'.certified .birth).payload) =
            (.birth, some (Levels.join "," g'.applicationIds))) := by
  intro start g' a
  obtain ⟨hstart, hready⟩ := (Tells.of_create hcreate hgood hnames).settle hprompt
  obtain ⟨htells, hready'⟩ := hstart.plays hprompt hready hmoves
  rw [show (Announcer.new options device clock (Transport.isConnected transport)).expire = a from
    rfl] at htells
  have hhanded := htells.handed_eq_outbound
  refine ⟨hhanded, fun h => ?_, fun caller call hcall => ⟨?_, fun h hsize => ?_⟩⟩
  · have htimes := htells.hasTimes_iff.2 h
    rw [htells.clock_eq, htells.device_eq] at htimes
    rw [hhanded]
    exact Announcer.readsBack_outbound htimes
  · have hsettled : IsSettled good g' := ⟨htells.going, hready'⟩
    have hplaces : places g'.options .birth = true :=
      htells.options_eq ▸ htells.placed.options .birth
    obtain ⟨-, hbegins⟩ := settled_ask hprompt hsettled (announces_of_establishes hcall) caller
    exact hbegins.published hsettled hplaces hcall
  · exact read_certified (htells.hasTimes_iff.2 h) .birth hsize

/-- A loopback transport that acknowledges what it takes and takes everything. -/
def IsEager (l : Loopback) : Prop := l.acknowledges = true ∧ l.failsPublish = false

theorem isPrompt_loopback : IsPrompt IsEager where
  takes {l} m hgood hup := by
    have hpublish : Transport.publish m l =
        (.ok l.nextId.toNat, { l with nextId := l.nextId + 1 }) := by
      show Loopback.publish m l = _
      rw [Loopback.publish, show l.connected = true from hup, hgood.2]
      rfl
    rw [hpublish]
    exact ⟨⟨_, rfl⟩, hgood.1⟩
  refuses {l} m _ hdown := by
    show ∃ e, (Loopback.publish m l).1 = .error e
    rw [Loopback.publish, show l.connected = false from hdown]
    exact ⟨_, rfl⟩
  publish l m hgood := by
    show IsEager (Loopback.publish m l).2 ∧ (Loopback.publish m l).2.connected = l.connected
    rw [Loopback.publish]
    split
    · exact ⟨hgood, rfl⟩
    · split <;> exact ⟨hgood, rfl⟩
  subscribe l filter qos hgood := ⟨hgood, rfl⟩
  unsubscribe l filter hgood := ⟨hgood, rfl⟩
  beginClose l hgood := by
    show IsEager (Loopback.beginClose l).2 ∧ (Loopback.beginClose l).2.connected = l.connected
    rw [Loopback.beginClose]
    split
    · exact ⟨hgood, rfl⟩
    · dsimp only
      split <;> exact ⟨hgood, rfl⟩
  connect {l} hgood := by
    simp only [Transport.connect, Loopback.connect]
    split <;> exact ⟨hgood, rfl⟩
  endClose hgood := ⟨hgood, rfl⟩

/-- A gateway starts on a connection that is lost later and comes back. Applications are added within
one window, and one of them is taken away in another that the loss cuts short. -/
def comingBack : List (Move Loopback) :=
  [.ask none .start, .registerApplication "first", .pass 20000, .registerApplication "second",
    .pass 30000, .unregisterApplication "first", .link {}, .ask none (.callback .lost),
    .pass 1000, .link { connected := true }, .ask none (.callback .established), .pass 60000]

/-- What was to be announced when the connection was lost is announced by the birth on the new one,
and by nothing else. -/
theorem handed_plays_comingBack :
    let transport : Loopback := { connected := true }
    let g : Gateway Loopback := { loopback with transport }
    let g' := (Timed.settle g).plays comingBack
    let a := (Announcer.new {} {} .epoch true).follow comingBack (Timed.settle g)
    (create {} transport {} .epoch none = .ok g ∧ IsPrompt IsEager ∧ IsEager transport ∧
      HasNames {} ∧ ∀ m ∈ comingBack, m.IsFair IsEager) ∧
    (Certificate.HasTimes .epoch {} ∧ ∀ m ∈ g'.handed, Encoding.binary.Measures m.1.payload) ∧
    g'.handed = a.outbound ∧
    a.handed.map (fun h => (h.announcement.kind, h.announcement.applications, h.isTaken)) =
      [(.birth, [], true), (.appList, ["first", "second"], true), (.birth, ["second"], true)] ∧
    g'.handed.map (fun m => (Certificate.read (({} : Options).decodePayload m.1.payload), m.2)) =
      [((.birth, some ""), true), ((.appList, some "first,second"), true),
        ((.birth, some "second"), true)] := by
  intro transport g g' a
  have hcreate : create {} transport {} .epoch none = .ok g := rfl
  have hgood : IsEager transport := ⟨rfl, rfl⟩
  have hnames : HasNames {} := by
    intro kind
    cases kind <;> decide
  have hfair : ∀ m ∈ comingBack, m.IsFair IsEager := by
    simp [comingBack, Move.IsFair, Call.announces, IsEager]
  have htimes : Certificate.HasTimes .epoch {} := ⟨by decide, fun pos hpos => by cases hpos⟩
  obtain ⟨hhanded, hreads, -⟩ := handed_plays isPrompt_loopback hcreate hgood hnames hfair
  have hoptions : ∀ h ∈ a.handed, h.options = {} := by decide +kernel
  have hsize : ∀ m ∈ g'.handed, Encoding.binary.Measures m.1.payload := by
    have hshort : ∀ h ∈ a.handed, (h.payload a.clock a.device).metrics.entries.length ≤ 100 ∧
        Payload.Binary.Within 100 (h.payload a.clock a.device) := by
      decide +kernel
    rw [show g'.handed = a.outbound from hhanded]
    exact Announcer.measures_outbound hoptions hshort (by decide)
  refine ⟨⟨hcreate, isPrompt_loopback, hgood, hnames, hfair⟩, ⟨htimes, hsize⟩, hhanded,
    by decide +kernel, ?_⟩
  rw [map_read_of_forall₂ (hreads htimes) hoptions hsize]
  decide +kernel

end Uplink.Gateway
