import Uplink.Proofs.Gateway.Announcer

/-!
# Lists of applications are up to date

A certificate lists the applications of the moment at which it was asked for, and may be handed over
much later. Applications that come or go while the connection is down are not asked about at all.
Still, as long as a connection is set up and nothing is kept for later, the certificate that was
handed over last lists the applications that there are.
-/

namespace Uplink

/-! ## 1. Names and lists -/

namespace SortedMap

variable {α : Type}

theorem mem_names_foldl_insert {ids : List String} {m : SortedMap Unit} {id : String} :
    id ∈ (ids.foldl (fun m id => m.insert id ()) m).names ↔ id ∈ ids ∨ id ∈ m.names := by
  induction ids generalizing m with
  | nil => simp
  | cons first ids ih =>
    rw [List.foldl_cons, ih, mem_names_insert, List.mem_cons]
    tauto

end SortedMap

namespace Gateway

variable {σ : Type}

/-- All applications, those that answer requests and those that only publish. -/
theorem Setting.mem_applicationIds {s : Setting} {id : String} :
    id ∈ s.applicationIds ↔ s.handlers.contains id = true ∨ s.applications.contains id = true := by
  rw [applicationIds, SortedMap.mem_names_foldl_insert, SortedMap.contains_iff_mem_names,
    SortedMap.contains_iff_mem_names]

/-! ## 2. What an announcer has said and is about to say -/

/-- The certificates that were handed over and those that are kept, with whether they are taken. -/
def Announcer.promised (a : Announcer) : List (Announcement × Bool) :=
  a.handed.map (fun h => (h.announcement, h.isTaken)) ++
    ([CertificateKind.birth, .appList, .disconnect].filterMap a.slots).map (·, a.isUp)

namespace Announcer

variable {a : Announcer}

theorem promised_eq (h : a.slots .disconnect = none) :
    a.promised = a.handed.map (fun h => (h.announcement, h.isTaken)) ++
      ((a.slots .birth).toList ++ (a.slots .appList).toList).map (·, a.isUp) := by
  rw [promised]
  cases hbirth : a.slots .birth <;> cases happList : a.slots .appList <;>
    simp [h, hbirth, happList]

theorem handed_foldl_hand (list : List Announcement) (a : Announcer) :
    (list.foldl hand a).handed = a.handed ++ list.map fun x => ⟨x, a.options, a.isUp⟩ := by
  induction list generalizing a with
  | nil => simp
  | cons x list ih => simp [ih, hand]

theorem slots_foldl_hand (list : List Announcement) (a : Announcer) :
    (list.foldl hand a).slots = a.slots := by
  induction list generalizing a with
  | nil => rfl
  | cons x list ih => exact ih (a.hand x)

theorem isUp_foldl_hand (list : List Announcement) (a : Announcer) :
    (list.foldl hand a).isUp = a.isUp := by
  induction list generalizing a with
  | nil => rfl
  | cons x list ih => exact ih (a.hand x)

theorem isUp_expire (a : Announcer) : a.expire.isUp = a.isUp := by
  rw [expire]
  split
  · exact isUp_foldl_hand _ _
  · rfl

theorem promised_expire (a : Announcer) : a.expire.promised = a.promised := by
  rw [expire]
  split
  · rw [promised, handed_foldl_hand, slots_foldl_hand]
    simp [promised, clear]
  · rfl

theorem getLast?_of_promised (h : ∀ kind, a.slots kind = none) {x : Announcement} {taken : Bool}
    (hlast : a.promised.getLast? = some (x, taken)) :
    ∃ h, a.handed.getLast? = some h ∧ (h.announcement, h.isTaken) = (x, taken) := by
  rw [promised_eq (h .disconnect), h .birth, h .appList] at hlast
  simpa using hlast

/-- On a connection that is set up, the last certificate lists the applications that there are. -/
structure ListsAll (a : Announcer) : Prop where
  isUp : a.isUp = true
  stays : a.slots .disconnect = none
  last : ∃ x, a.promised.getLast? = some (x, true) ∧ x.kind ≠ .disconnect ∧
    x.applications = a.applicationIds

/-- Unless something is kept for later, it also went out with the options that there are. -/
structure IsFresh (a : Announcer) : Prop extends ListsAll a where
  options : (∀ kind, a.slots kind = none) → ∀ h ∈ a.handed.getLast?, h.options = a.options

theorem isFresh_establish (h : a.isUp = true) : IsFresh a.establish where
  isUp := h
  stays := rfl
  last := by
    refine ⟨a.announcement .birth, ?_, by simp [announcement], rfl⟩
    simp [promised, establish, hand, clear, h]
  options _ := by simp [establish, hand, clear]

/-- Whatever became of the applications, a new list takes the place of the one before. -/
theorem isFresh_request_appList (h : a.isUp = true) (hstays : a.slots .disconnect = none) :
    IsFresh (a.request .appList) := by
  rw [request, if_pos h]
  refine ⟨⟨h, by simpa using hstays, a.announcement .appList, ?_, by simp [announcement], rfl⟩,
    fun hnone => absurd (hnone .appList) (by simp)⟩
  rw [promised_eq (by simpa using hstays)]
  simp [h]

/-- Where nothing but the options may have changed, a list that is kept goes after the birth and is
still up to date. -/
theorem ListsAll.request_birth (h : ListsAll a) : IsFresh (a.request .birth) := by
  rw [request, if_pos h.isUp]
  refine ⟨⟨h.isUp, by simpa using h.stays, ?_⟩, fun hnone => absurd (hnone .birth) (by simp)⟩
  rw [promised_eq (by simpa using h.stays)]
  cases hkept : a.slots .appList with
  | none =>
    -- The birth comes last, and was asked for just now.
    exact ⟨a.announcement .birth, by simp [hkept, h.isUp], by simp [announcement], rfl⟩
  | some x =>
    -- The list that is kept comes last, as it did before.
    obtain ⟨y, hlast, hkind, happlications⟩ := h.last
    rw [promised_eq h.stays, hkept] at hlast
    have hxy : x = y := by simpa [h.isUp] using hlast
    exact ⟨x, by simp [hkept, h.isUp], hxy ▸ hkind, hxy ▸ happlications⟩

/-- What is handed over goes out with the options of the moment. -/
theorem options_getLast?_foldl_hand {list : List Announcement} (hlist : list ≠ []) :
    ∀ h ∈ (list.foldl hand a).handed.getLast?, h.options = a.options := by
  intro h hh
  rw [handed_foldl_hand, List.getLast?_append_of_ne_nil _ (by simpa using hlist)] at hh
  obtain ⟨x, -, rfl⟩ := List.mem_map.1 (List.mem_of_getLast? hh)
  rfl

theorem IsFresh.expire (h : IsFresh a) : IsFresh a.expire := by
  obtain ⟨x, hlast, hkind, happlications⟩ := h.last
  refine ⟨⟨(isUp_expire a).trans h.isUp, ?_, x, (promised_expire a).symm ▸ hlast, hkind, ?_⟩, ?_⟩
  · rw [Announcer.expire]
    split
    · rw [slots_foldl_hand]
      rfl
    · exact h.stays
  · rw [(hasSaid_expire a).setting]
    exact happlications
  · rw [(hasSaid_expire a).setting, Announcer.expire]
    split
    · intro _
      by_cases hkept : [CertificateKind.birth, .appList, .disconnect].filterMap a.slots = []
      · -- With nothing kept, what was handed over last stays the last one.
        rw [hkept]
        have hslots : ∀ kind, a.slots kind = none := fun kind =>
          List.filterMap_eq_nil_iff.1 hkept kind (by cases kind <;> simp)
        exact h.options hslots
      · exact options_getLast?_foldl_hand (a := a.clear) hkept
    · exact h.options

theorem IsFresh.configure (h : IsFresh a) (options : Options) : IsFresh (a.configure options) := by
  rw [Announcer.configure]
  split
  · have hchanged : ListsAll { a with options } := ⟨h.isUp, h.stays, h.last⟩
    exact hchanged.request_birth
  · exact h

end Announcer

/-! ## 3. Connections that are set up -/

variable [Transport σ]

def Call.leaves : Call → Bool
  | .callback .disconnecting => true
  | _ => false

/-- After a move a connection that stays up is set up: it was before, or is now. -/
def Move.setsUp (t : σ) (was : Bool) : Move σ → Bool
  | .ask _ call => call.establishes t || was && !call.leaves
  | _ => was

/-- After moves a gateway has a connection that was set up and did not go down since. -/
def isSetUp : List (Move σ) → Gateway σ → Bool → Bool
  | [], _, was => was
  | m :: moves, g, was =>
    isSetUp moves (g.play m) ((g.play m).isConnected && m.setsUp g.transport was)

namespace Announcer

variable {a : Announcer} {t : σ} {was : Bool}

theorem isFresh_connect (h : connects t = true) : IsFresh (a.connect t) := by
  rw [connect, if_pos h]
  exact isFresh_establish rfl

/-- A call sets up a connection, or leaves one as it is that is set up. -/
theorem isFresh_call (hbefore : was = true → IsFresh a) {call : Call}
    (hup : (a.call t call).isUp = true) (ht : Transport.isConnected t = a.isUp)
    (hset : (call.establishes t || was && !call.leaves) = true) : IsFresh (a.call t call) := by
  cases call with
  | start =>
    rw [Announcer.call] at hup ⊢
    split
    · next h => exact isFresh_establish h
    · next h =>
      -- A connection that is down was not set up, so that the transport has to connect.
      have hwas : was = false := by
        by_contra hwas
        exact h (hbefore (by simpa using hwas)).isUp
      exact isFresh_connect (by simpa [Call.establishes, ht, h, hwas] using hset)
  | connect =>
    cases hconnects : connects t with
    | true => exact isFresh_connect hconnects
    | false =>
      rw [Announcer.call, connect, hconnects, if_neg Bool.false_ne_true]
      exact hbefore (by simpa [Call.establishes, Call.leaves, hconnects] using hset)
  | disconnect =>
    rw [Announcer.call] at hup ⊢
    split at hup
    · cases hup
    · next h =>
      rw [if_neg h]
      exact hbefore (by simpa [Call.establishes, Call.leaves] using hset)
  | shutDown | publish => exact hbefore (by simpa [Call.establishes, Call.leaves] using hset)
  | callback c =>
    cases c with
    | established => exact isFresh_establish hup
    | disconnecting => simp [Call.establishes, Call.leaves] at hset
    | disconnected | lost => exact hbefore (by simpa [Call.establishes, Call.leaves] using hset)

/-- Every move that a connection survives keeps the list up to date, or sets up the connection. -/
theorem isFresh_hear (hbefore : was = true → IsFresh a) {m : Move σ}
    (hup : (a.hear t m).isUp = true) (ht : Transport.isConnected t = a.isUp)
    (hset : m.setsUp t was = true) : IsFresh (a.hear t m) := by
  -- A connection that is up stays up through any move but a call, and what changes the list asks
  -- for it again.
  cases m with
  | ask caller call => exact isFresh_call hbefore hup ht hset
  | link transport =>
    have h := hbefore hset
    have hstays : Transport.isConnected transport = a.isUp := hup.trans h.isUp.symm
    rw [hear, hstays]
    exact h
  | configure options => exact (hbefore hset).configure options
  | registerHandler app handler =>
    have h := hbefore hset
    exact isFresh_request_appList h.isUp h.stays
  | unregisterHandler app =>
    have h := hbefore hset
    rw [hear]
    split
    · exact isFresh_request_appList h.isUp h.stays
    · exact h
  | registerApplication app =>
    have h := hbefore hset
    rw [hear]
    split
    · exact h
    · exact isFresh_request_appList h.isUp h.stays
  | unregisterApplication app =>
    have h := hbefore hset
    rw [hear]
    split
    · exact isFresh_request_appList h.isUp h.stays
    · exact h
  | platform event =>
    have h := hbefore hset
    rw [hear]
    split
    · exact h.request_birth
    · exact h
  | pass ms =>
    have h := hbefore hset
    exact ⟨⟨h.isUp, h.stays, h.last⟩, h.options⟩

end Announcer

/-- Where all certificates have a place to go to. -/
def Resolves (o : Options) : Prop := ∀ kind, places o kind = true

theorem Resolves.hasNames {o : Options} (h : Resolves o) : HasNames o := by
  intro kind hbegins
  have hplaces := h kind
  rw [places, Certificate.target, Levels.cut] at hplaces
  have hcut : ∃ after, Levels.cutChars o.separator.toList (kind.suffix o).toList =
      some ([], after) := by
    cases hchars : (kind.suffix o).toList with
    | nil =>
      rw [hchars, List.prefix_nil] at hbegins
      exact ⟨[], by rw [hbegins]; rfl⟩
    | cons c cs =>
      rw [hchars] at hbegins
      exact ⟨_, by rw [Levels.cutChars, if_pos (List.isPrefixOf_iff_prefix.2 hbegins)]⟩
  obtain ⟨after, hcut⟩ := hcut
  rw [hcut] at hplaces
  simp at hplaces

/-- A move that leaves the transport prompt, the gateway running, and certificates with a place to
go to. -/
def Move.IsServed (good : σ → Prop) : Move σ → Prop
  | .configure options => Resolves options
  | m => m.IsFair good

omit [Transport σ] in
theorem Move.IsServed.isFair {good : σ → Prop} {m : Move σ} (h : m.IsServed good) :
    m.IsFair good := by
  cases m with
  | configure options => exact Resolves.hasNames h
  | _ => exact h

/-- Whether the connection is set up can be told from what is said of it. -/
def Announcer.isSetUp : List (Move σ) → Gateway σ → Announcer → Bool → Bool
  | [], _, _, was => was
  | m :: moves, g, a, was =>
    let later := (a.hear g.transport m).expire
    isSetUp moves (g.play m) later (later.isUp && m.setsUp g.transport was)

theorem Tells.isSetUp_eq {good : σ → Prop} (hprompt : IsPrompt good) {g : Gateway σ}
    {a : Announcer} (h : Tells good g a) (hready : g.agenda.ready = []) {moves : List (Move σ)}
    (hmoves : ∀ m ∈ moves, m.IsFair good) (was : Bool) :
    isSetUp moves g was = a.isSetUp moves g was := by
  induction moves generalizing g a was with
  | nil => rfl
  | cons m moves ih =>
    obtain ⟨hplayed, hready'⟩ := h.play hprompt hready (hmoves m List.mem_cons_self)
    rw [isSetUp, Announcer.isSetUp, hplayed.isUp]
    exact ih hplayed hready' (fun m' hm' => hmoves m' (List.mem_cons_of_mem _ hm')) _

theorem Tells.isFresh_follow {good : σ → Prop} (hprompt : IsPrompt good) {g : Gateway σ}
    {a : Announcer} (h : Tells good g a) (hready : g.agenda.ready = []) {moves : List (Move σ)}
    (hmoves : ∀ m ∈ moves, m.IsFair good) {was : Bool} (hbefore : was = true → a.IsFresh)
    (hset : isSetUp moves g was = true) : (a.follow moves g).IsFresh := by
  induction moves generalizing g a was with
  | nil => exact hbefore hset
  | cons m moves ih =>
    obtain ⟨hplayed, hready'⟩ := h.play hprompt hready (hmoves m List.mem_cons_self)
    -- What is due after the move is handed over in its turn, which does not change the last one.
    refine ih hplayed hready' (fun m' hm' => hmoves m' (List.mem_cons_of_mem _ hm')) ?_ hset
    intro hnow
    rw [Bool.and_eq_true, hplayed.isUp, Announcer.isUp_expire] at hnow
    exact (Announcer.isFresh_hear hbefore hnow.1 h.isUp hnow.2).expire

/-! ## 4. The last certificate -/

namespace Tells

variable {good : σ → Prop} {g : Gateway σ} {a : Announcer}

theorem pending_eq_nil_iff (h : Tells good g a) :
    g.debouncer.pending = [] ↔ ∀ kind, a.slots kind = none := by
  have hkept (kind : CertificateKind) : g.debouncer.kept kind = none ↔ a.slots kind = none := by
    rw [show g.debouncer.kept kind = (a.slots kind).map fun x => x.message a.clock a.device from
      congrFun (congrArg Outlook.kept h.outlook) kind, Option.map_eq_none_iff]
  rw [Debouncer.pending_eq_nil_iff]
  exact forall_congr' hkept

theorem handed_eq (h : Tells good g a) :
    g.handed = a.handed.map fun x => (x.outbound g.clock g.device, x.isTaken) := by
  rw [h.clock_eq, h.device_eq]
  exact h.handed_eq_outbound

end Tells

/-- **Lists of applications are up to date.** Whatever came before: on a connection that was set up,
with nothing kept for later, the message that was handed over last is a birth or a list of
applications, it was taken, and it names all applications that there are, in ascending order and
each of them once. Whoever reads the message with the options that there are finds just these. -/
theorem last_certificate_lists_applications {good : σ → Prop} (hprompt : IsPrompt good)
    {options : Options} {transport : σ} {device : Device} {clock : Clock}
    {verifier : Option (Topic → Payload → Bool)} {g : Gateway σ}
    (hcreate : create options transport device clock verifier = .ok g) (hgood : good transport)
    (hresolves : Resolves options) {moves : List (Move σ)}
    (hmoves : ∀ m ∈ moves, m.IsServed good)
    (hset : isSetUp moves (Timed.settle g) false = true)
    (hpending : ((Timed.settle g).plays moves).debouncer.pending = []) :
    let g' := (Timed.settle g).plays moves
    (∃ h : Handing, g'.handed.getLast? = some (h.outbound g'.clock g'.device, true) ∧
      h.announcement.kind ≠ .disconnect ∧
      (Certificate.payload g'.clock h.announcement.options g'.device h.announcement.applications
        h.announcement.kind).metric? "application_ids" =
          some (.string (Levels.join "," g'.applicationIds))) ∧
    (Certificate.HasTimes clock device → ∃ out kind, g'.handed.getLast? = some (out, true) ∧
      kind ≠ .disconnect ∧ (g'.options.encoding.Measures out.payload →
        Certificate.read (g'.options.decodePayload out.payload) =
          (kind, some (Levels.join "," g'.applicationIds)))) ∧
    g'.applicationIds.Pairwise (· < ·) ∧
    ∀ id, id ∈ g'.applicationIds ↔
      g'.handlers.contains id = true ∨ g'.applications.contains id = true := by
  intro g'
  have hfair : ∀ m ∈ moves, m.IsFair good := fun m hm => (hmoves m hm).isFair
  obtain ⟨hstart, hready⟩ := (Tells.of_create hcreate hgood hresolves.hasNames).settle hprompt
  have htells := (hstart.plays hprompt hready hfair).1
  have hfresh := hstart.isFresh_follow hprompt hready hfair (by simp) hset
  obtain ⟨x, hlast, hkind, happlications⟩ := hfresh.last
  -- With nothing kept for later, the last one that was promised was handed over.
  have hslots := htells.pending_eq_nil_iff.1 hpending
  obtain ⟨h, hhanded, hx⟩ := Announcer.getLast?_of_promised hslots hlast
  obtain ⟨rfl, htaken⟩ := Prod.mk.inj hx
  have hlast' : g'.handed.getLast? = some (h.outbound g'.clock g'.device, true) := by
    rw [htells.handed_eq, List.getLast?_map, hhanded, Option.map_some, htaken]
  have hids : h.announcement.applications = g'.applicationIds := by
    rw [happlications, ← htells.setting]
    rfl
  have hoptions : g'.options = h.options :=
    htells.options_eq.trans (hfresh.options hslots h hhanded).symm
  refine ⟨⟨h, hlast', hkind, ?_⟩, fun htimes => ⟨_, h.announcement.kind, hlast', hkind, ?_⟩,
    SortedMap.pairwise_names _, fun id => Setting.mem_applicationIds (s := g'.setting)⟩
  · rw [Certificate.metric?_applications _ _ _ _ hkind, hids]
  · intro hsize
    rw [hoptions] at hsize ⊢
    rw [(h.readsBack (htells.hasTimes_iff.2 htimes)).2 hsize, hids]
    cases hk : h.announcement.kind with
    | disconnect => exact absurd hk hkind
    | birth | appList => rfl

/-- One application comes before there is a connection. Another one comes and the first one goes
within one window, which the loss of the connection cuts short, and a third one comes on the
next connection. -/
def comingAndGoing : List (Move Loopback) :=
  [.registerApplication "first", .link { connected := true }, .ask none (.callback .established),
    .registerApplication "second", .pass 20000, .unregisterApplication "first", .link {},
    .ask none (.callback .lost), .pass 60000, .link { connected := true },
    .ask none (.callback .established), .registerHandler "Third" ⟨"mute", 0, fun _ _ => none⟩,
    .pass 30000]

theorem last_certificate_lists_applications_comingAndGoing :
    let g : Gateway Loopback := loopback
    let g' := (Timed.settle g).plays comingAndGoing
    (create {} {} {} .epoch none = .ok g ∧ IsPrompt IsEager ∧ IsEager {} ∧ Resolves {} ∧
      (∀ m ∈ comingAndGoing, m.IsServed IsEager) ∧
      isSetUp comingAndGoing (Timed.settle g) false = true ∧ g'.debouncer.pending = []) ∧
    (Certificate.HasTimes .epoch {} ∧ ∀ m ∈ g'.handed, Encoding.binary.Measures m.1.payload) ∧
    ((∃ h : Handing, g'.handed.getLast? = some (h.outbound g'.clock g'.device, true) ∧
      h.announcement.kind ≠ .disconnect ∧
      (Certificate.payload g'.clock h.announcement.options g'.device h.announcement.applications
        h.announcement.kind).metric? "application_ids" =
          some (.string (Levels.join "," g'.applicationIds))) ∧
      g'.applicationIds.Pairwise (· < ·) ∧
      ∀ id, id ∈ g'.applicationIds ↔
        g'.handlers.contains id = true ∨ g'.applications.contains id = true) ∧
    g'.applicationIds = ["Third", "second"] ∧
    ∃ out kind, g'.handed.getLast? = some (out, true) ∧ kind ≠ .disconnect ∧
      Certificate.read (({} : Options).decodePayload out.payload) = (kind, some "Third,second") := by
  intro g g'
  have hcreate : create {} {} {} .epoch none = .ok g := rfl
  have hgood : IsEager {} := ⟨rfl, rfl⟩
  have hresolves : Resolves {} := by
    intro kind
    cases kind <;> decide
  have hserved : ∀ m ∈ comingAndGoing, m.IsServed IsEager := by
    simp [comingAndGoing, Move.IsServed, Move.IsFair, Call.announces, IsEager]
  have hfair : ∀ m ∈ comingAndGoing, m.IsFair IsEager := fun m hm => (hserved m hm).isFair
  obtain ⟨hstart, hready⟩ :=
    (Tells.of_create hcreate hgood hresolves.hasNames).settle isPrompt_loopback
  have htells := (hstart.plays isPrompt_loopback hready hfair).1
  have hset : isSetUp comingAndGoing (Timed.settle g) false = true := by
    rw [hstart.isSetUp_eq isPrompt_loopback hready hfair]
    decide +kernel
  have hpending : g'.debouncer.pending = [] := by
    refine htells.pending_eq_nil_iff.2 fun kind => ?_
    cases kind <;> decide +kernel
  have htimes : Certificate.HasTimes .epoch {} := ⟨by decide, fun pos hpos => by cases hpos⟩
  obtain ⟨hlast, hreads, hsorted, hids⟩ := last_certificate_lists_applications isPrompt_loopback
    hcreate hgood hresolves hserved hset hpending
  obtain ⟨out, kind, hout, hkind, hread⟩ := hreads htimes
  -- The announcer tells what the gateway has handed over.
  let a := (Announcer.new {} {} .epoch false).expire.follow comingAndGoing (Timed.settle g)
  have hhanded : g'.handed = a.outbound := htells.handed_eq_outbound
  have hsetting : g'.setting = a.toSetting := htells.setting
  have hoptions : ∀ h ∈ a.handed, h.options = {} := by decide +kernel
  have hsize : ∀ m ∈ g'.handed, Encoding.binary.Measures m.1.payload := by
    have hshort : ∀ h ∈ a.handed, (h.payload a.clock a.device).metrics.entries.length ≤ 100 ∧
        Payload.Binary.Within 100 (h.payload a.clock a.device) := by
      decide +kernel
    rw [hhanded]
    exact Announcer.measures_outbound hoptions hshort (by decide)
  have happs : g'.applicationIds = ["Third", "second"] := by
    show g'.setting.applicationIds = _
    rw [hsetting]
    decide +kernel
  have hplain : g'.options = {} := htells.options_eq.trans (by decide +kernel)
  rw [hplain, happs] at hread
  exact ⟨⟨hcreate, isPrompt_loopback, hgood, hresolves, hserved, hset, hpending⟩,
    ⟨htimes, hsize⟩, ⟨hlast, hsorted, hids⟩, happs, out, kind, hout, hkind,
    hread (hsize _ (List.mem_of_getLast? hout))⟩

end Gateway

end Uplink
