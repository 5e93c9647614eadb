import Uplink.Proofs.Text.Levels
import Uplink.Topic

/-!
# Topics are read level by level

The parts of a topic are its levels at fixed places, counted from the control level if there is one
in front, and empty where the topic is too short. A topic that was made for an application is read
back to what it was made of.
-/

namespace Uplink

/-! ## 1. Taking levels -/

/-- A level that is missing is an empty one. -/
theorem getD_takeLevel {sep : String} (hsep : sep ≠ "") (text : String) :
    (takeLevel sep text).1.getD "" = Levels.nth sep text 0 := by
  rw [takeLevel, Levels.nth]
  split
  · next h => rw [String.isEmpty_iff.1 h, Levels.split_empty hsep]; rfl
  · split
    · next h => rw [Levels.split_of_cut_eq_some hsep h]; rfl
    · next h => rw [Levels.split_of_cut_eq_none hsep h]; rfl

theorem nth_takeLevel {sep : String} (hsep : sep ≠ "") (text : String) (i : Nat) :
    Levels.nth sep (takeLevel sep text).2 i = Levels.nth sep text (i + 1) := by
  rw [takeLevel, Levels.nth, Levels.nth]
  split
  · next h => rw [String.isEmpty_iff.1 h, Levels.split_empty hsep]; cases i <;> rfl
  · split
    · next h => rw [Levels.split_of_cut_eq_some hsep h]; rfl
    · next h =>
      rw [Levels.split_of_cut_eq_none hsep h, Levels.split_empty hsep]
      cases i <;> rfl

/-- Only a text that is empty has no level. -/
theorem takeLevel_fst {sep text : String} (hsep : sep ≠ "") (htext : text ≠ "") :
    (takeLevel sep text).1 = some (Levels.nth sep text 0) := by
  rw [← getD_takeLevel hsep text, takeLevel, if_neg (mt String.isEmpty_iff.1 htext)]
  split <;> rfl

namespace Topic

/-! ## 2. The parts of a topic -/

@[simp] theorem full_parse (o : Options) (text : String) : (parse o text).full = text := by
  rw [parse]
  split <;> rfl

/-- What is read of a topic is put together from what is left after each level. -/
theorem parse_of_takeLevel {o : Options} {text rest₀ rest₁ rest₂ subTopic : String}
    {realm account client app : Option String} (htext : text ≠ "") (hwild : text ≠ o.wildcard)
    (hrealm : (if hasRealm o text then takeLevel o.separator text else (none, text)) =
      (realm, rest₀))
    (haccount : takeLevel o.separator rest₀ = (account, rest₁))
    (hclient : takeLevel o.separator rest₁ = (client, rest₂))
    (happ : takeLevel o.separator rest₂ = (app, subTopic)) :
    parse o text =
      { full := text, realm, account := account.getD "", client := client.getD "",
        app := app.getD "", subTopic
        requestId :=
          if realm = some o.controlPrefix ∧ 2 ≤ (Levels.split o.separator subTopic).length then
            (Levels.split o.separator subTopic).getLast?
          else none } := by
  have hparts : ¬(text.isEmpty ∨ text = o.wildcard) :=
    not_or.2 ⟨mt String.isEmpty_iff.1 htext, hwild⟩
  rw [parse, if_neg hparts]
  simp only [hrealm, haccount, hclient, happ, isControl, subLevels, beq_iff_eq]

def realmLevels (o : Options) (text : String) : Nat := if hasRealm o text then 1 else 0

/-- The parts of a topic before its sub-topic are its levels, from the first on. -/
theorem parse_levels {o : Options} {text : String} (hsep : o.separator ≠ "") (htext : text ≠ "")
    (hwild : text ≠ o.wildcard) :
    (parse o text).realm =
        (if hasRealm o text then some (Levels.nth o.separator text 0) else none) ∧
      (parse o text).account = Levels.nth o.separator text (realmLevels o text) ∧
      (parse o text).client = Levels.nth o.separator text (realmLevels o text + 1) ∧
      (parse o text).app = Levels.nth o.separator text (realmLevels o text + 2) := by
  have hpair {α β : Type} (p : α × β) : p = (p.1, p.2) := rfl
  rw [parse_of_takeLevel htext hwild (hpair _) (hpair _) (hpair _) (hpair _), realmLevels]
  cases hasRealm o text with
  | true =>
    simp only [if_true, getD_takeLevel hsep, nth_takeLevel hsep, takeLevel_fst hsep htext, and_self]
  | false =>
    simp only [Bool.false_eq_true, if_false, getD_takeLevel hsep, nth_takeLevel hsep, and_self]

def IsRealm (o : Options) (level : String) : Prop :=
  level = o.controlPrefix ∨ level.toList.head? = some '$'

theorem hasRealm_iff (o : Options) (text : String) :
    hasRealm o text = true ↔ IsRealm o (Levels.nth o.separator text 0) := by
  rw [hasRealm, Levels.nth, IsRealm]
  cases h : Levels.split o.separator text with
  | nil => exact absurd h (Levels.split_ne_nil _ _)
  | cons first rest => simp

/-- A topic is in the realm of control if its first level is the control level. -/
theorem isControl_parse_iff {o : Options} {text : String} (hsep : o.separator ≠ "") :
    (parse o text).isControl o = true ↔ text ≠ "" ∧ text ≠ o.wildcard ∧
      Levels.nth o.separator text 0 = o.controlPrefix := by
  by_cases hparts : text.isEmpty ∨ text = o.wildcard
  · rw [parse, if_pos hparts]
    rcases hparts with h | h
    · simp [isControl, String.isEmpty_iff.1 h]
    · simp [isControl, h]
  · obtain ⟨htext, hwild⟩ := not_or.1 hparts
    rw [String.isEmpty_iff] at htext
    rw [isControl, (parse_levels hsep htext hwild).1]
    by_cases h : hasRealm o text
    · simp [h, htext, hwild]
    · have hfirst : Levels.nth o.separator text 0 ≠ o.controlPrefix := fun heq =>
        h ((hasRealm_iff o text).2 (.inl heq))
      simp [h, hfirst]

/-! ## 3. Topics that were put together -/

theorem takeLevel_join {sep level : String} (hsep : sep ≠ "") (h : Levels.Ends sep level)
    (next : String) (levels : List String) :
    takeLevel sep (Levels.join sep (level :: next :: levels)) =
      (some level, Levels.join sep (next :: levels)) := by
  have htext : Levels.join sep (level :: next :: levels) ≠ "" := by
    simp [Levels.join_cons_cons, hsep]
  rw [takeLevel, if_neg (mt String.isEmpty_iff.1 htext), Levels.join_cons_cons, h.cut_append hsep]

theorem takeLevel_of_cut_eq_none {sep text : String} (h : Levels.cut sep text = none) :
    (takeLevel sep text).1.getD "" = text ∧ (takeLevel sep text).2 = "" := by
  rw [takeLevel, h]
  split
  · next hempty => exact ⟨(String.isEmpty_iff.1 hempty).symm, String.isEmpty_iff.1 hempty⟩
  · exact ⟨rfl, rfl⟩

/-- The application is the last level to be taken: what follows it is left as it is. -/
theorem takeLevel_app {sep app : String} (hsep : sep ≠ "") (happ : Levels.Ends sep app)
    (appTopic : String) :
    ∃ level, level.getD "" = app ∧
      takeLevel sep (Levels.join sep (app :: if appTopic.isEmpty then [] else [appTopic])) =
        (level, appTopic) := by
  split
  · next hempty =>
    obtain ⟨hlevel, hrest⟩ := takeLevel_of_cut_eq_none (happ.cut_eq_none hsep)
    rw [Levels.join, String.intercalate_singleton, String.isEmpty_iff.1 hempty]
    exact ⟨_, hlevel, Prod.ext rfl hrest⟩
  · refine ⟨some app, rfl, ?_⟩
    rw [takeLevel_join hsep happ, Levels.join, String.intercalate_singleton]

/-- The first of several levels is taken off if it is one that stands in front of the account. -/
theorem takeRealm_join {o : Options} (hsep : o.separator ≠ "") {first : String}
    (h : Levels.Ends o.separator first) (next : String) (levels : List String) :
    let text := Levels.join o.separator (first :: next :: levels)
    (IsRealm o first → (if hasRealm o text then takeLevel o.separator text else (none, text)) =
      (some first, Levels.join o.separator (next :: levels))) ∧
    (¬IsRealm o first → (if hasRealm o text then takeLevel o.separator text else (none, text)) =
      (none, text)) := by
  intro text
  have htake := takeLevel_join hsep h next levels
  have hfirst : Levels.nth o.separator text 0 = first := by
    rw [← getD_takeLevel hsep, htake, Option.getD_some]
  have hrealm := hasRealm_iff o text
  rw [hfirst] at hrealm
  exact ⟨fun h => (if_pos (hrealm.2 h)).trans htake, fun h => if_neg (mt hrealm.1 h)⟩

/-- Levels that were put together are read as the parts they stand for, whatever follows them, if
each of them ends at its separator and the text is not the wildcard. A level in front of the account
must be one that stands there, and the account must not be one if it is the first. -/
theorem parse_join_of_ends {o : Options} (hsep : o.separator ≠ "") {realm : Option String}
    {account client app : String}
    (hends : ∀ level ∈ realm.toList ++ [account, client, app], Levels.Ends o.separator level)
    (hrealm : ∀ level ∈ realm, IsRealm o level) (hfirst : realm = none → ¬IsRealm o account)
    (subTopic : String) {full : String}
    (hfull : full = Levels.join o.separator (realm.toList ++ [account, client, app] ++
      if subTopic.isEmpty then [] else [subTopic]))
    (hwild : full ≠ o.wildcard) :
    parse o full =
      { full, realm, account, client, app, subTopic
        requestId :=
          if realm = some o.controlPrefix ∧ 2 ≤ (Levels.split o.separator subTopic).length then
            (Levels.split o.separator subTopic).getLast?
          else none } := by
  obtain ⟨level, hlevel, htakeApp⟩ := takeLevel_app hsep (hends app (by simp)) subTopic
  have htakeAccount := takeLevel_join hsep (hends account (by simp)) client
    (app :: if subTopic.isEmpty then [] else [subTopic])
  have htakeClient := takeLevel_join hsep (hends client (by simp)) app
    (if subTopic.isEmpty then [] else [subTopic])
  have htext : full ≠ "" := by
    cases realm <;> simp [hfull, Levels.join_cons_cons, hsep]
  -- From the account on, the levels are the same with and without a level in front.
  have htakeRealm : (if hasRealm o full then takeLevel o.separator full else (none, full)) =
      (realm, Levels.join o.separator
        (account :: client :: app :: if subTopic.isEmpty then [] else [subTopic])) := by
    cases realm with
    | none =>
      rw [hfull]
      exact (takeRealm_join hsep (hends account (by simp)) _ _).2 (hfirst rfl)
    | some first =>
      rw [hfull]
      exact (takeRealm_join hsep (hends first (by simp)) _ _).1 (hrealm first rfl)
  rw [parse_of_takeLevel htext hwild htakeRealm htakeAccount htakeClient htakeApp, hlevel]
  rfl

/-- Where something follows a level, the level ended at its separator. -/
theorem ends_of_takeLevel {sep text rest : String} {level : Option String} (hsep : sep ≠ "")
    (h : takeLevel sep text = (level, rest)) (hrest : rest ≠ "") :
    ∃ l, level = some l ∧ Levels.Ends sep l ∧ l ++ (sep ++ rest) = text := by
  rw [takeLevel] at h
  split at h
  · next hempty =>
    obtain ⟨-, rfl⟩ := Prod.mk.inj h
    exact absurd (String.isEmpty_iff.1 hempty) hrest
  · split at h
    · next hcut =>
      obtain ⟨rfl, rfl⟩ := Prod.mk.inj h
      exact ⟨_, rfl, Levels.ends_of_cut hsep hcut, Levels.append_of_cut hcut⟩
    · obtain ⟨-, rfl⟩ := Prod.mk.inj h
      exact absurd rfl hrest

/-- The parts of a topic that has a sub-topic make up its text, and all that stand in front of the
sub-topic end at their separators. -/
theorem join_parse {o : Options} {text : String} (hsep : o.separator ≠ "")
    (hsub : (parse o text).subTopic ≠ "") :
    let t := parse o text
    Levels.join o.separator (t.realm.toList ++ [t.account, t.client, t.app, t.subTopic]) = text ∧
      ∀ level ∈ t.realm.toList ++ [t.account, t.client, t.app], Levels.Ends o.separator level := by
  have hparts : ¬(text.isEmpty ∨ text = o.wildcard) := fun h => by
    rw [parse, if_pos h] at hsub
    exact hsub rfl
  obtain ⟨htext, hwild⟩ := not_or.1 hparts
  rcases htakeRealm : (if hasRealm o text then takeLevel o.separator text else (none, text)) with
    ⟨realm, rest₀⟩
  rcases htakeAccount : takeLevel o.separator rest₀ with ⟨account, rest₁⟩
  rcases htakeClient : takeLevel o.separator rest₁ with ⟨client, rest₂⟩
  rcases htakeApp : takeLevel o.separator rest₂ with ⟨app, subTopic⟩
  rw [parse_of_takeLevel (mt String.isEmpty_iff.2 htext) hwild htakeRealm htakeAccount htakeClient
    htakeApp] at hsub ⊢
  have hafter {level rest : String} : level ++ (o.separator ++ rest) ≠ "" := by simp [hsep]
  -- Something follows the application, so it ended, so something follows the client, and so on.
  obtain ⟨app, rfl, hendsApp, rfl⟩ := ends_of_takeLevel hsep htakeApp hsub
  obtain ⟨client, rfl, hendsClient, rfl⟩ := ends_of_takeLevel hsep htakeClient hafter
  obtain ⟨account, rfl, hendsAccount, rfl⟩ := ends_of_takeLevel hsep htakeAccount hafter
  have hrest : Levels.join o.separator [account, client, app, subTopic] =
      account ++ (o.separator ++
        (client ++ (o.separator ++ (app ++ (o.separator ++ subTopic))))) := by
    rw [Levels.join_cons_cons, Levels.join_cons_cons, Levels.join_cons_cons, Levels.join,
      String.intercalate_singleton]
  split at htakeRealm
  · obtain ⟨first, rfl, hendsFirst, rfl⟩ := ends_of_takeLevel hsep htakeRealm hafter
    refine ⟨?_, ?_⟩
    · rw [← hrest, ← Levels.join_cons_cons]
      rfl
    · simp [hendsFirst, hendsAccount, hendsClient, hendsApp]
  · obtain ⟨rfl, rfl⟩ := Prod.mk.inj htakeRealm
    exact ⟨hrest, by simp [hendsAccount, hendsClient, hendsApp]⟩

/-! ## 4. Topics that were made for applications -/

variable {c : Char}

/-- Between separators of one character, every level without it ends. -/
theorem parse_join {o : Options} (hsep : o.separator = String.singleton c)
    (hwild : c ∉ o.wildcard.toList) {realm : Option String} {account client app : String}
    (hlevels : ∀ level ∈ realm.toList ++ [account, client, app], c ∉ level.toList)
    (hrealm : ∀ level ∈ realm, IsRealm o level) (hfirst : realm = none → ¬IsRealm o account)
    (subTopic : String) :
    let full := Levels.join o.separator (realm.toList ++ [account, client, app] ++
      if subTopic.isEmpty then [] else [subTopic])
    parse o full =
      { full, realm, account, client, app, subTopic
        requestId :=
          if realm = some o.controlPrefix ∧ c ∈ subTopic.toList then
            some (Levels.afterLast c subTopic)
          else none } := by
  intro full
  have hsep' : o.separator ≠ "" := by simp [hsep]
  have hends : ∀ level ∈ realm.toList ++ [account, client, app], Levels.Ends o.separator level :=
    fun level hlevel => hsep ▸ Levels.ends_of_notMem (hlevels level hlevel)
  have hmem : c ∈ full.toList := by
    rw [show full = Levels.join o.separator _ from rfl, hsep]
    cases realm <;> exact Levels.mem_join ..
  have hwildcard : full ≠ o.wildcard := fun h => hwild (h ▸ hmem)
  have hlast := Levels.getLast?_split c subTopic
  have htwo := Levels.two_le_length_split c subTopic
  rw [← hsep] at hlast htwo
  rw [parse_join_of_ends hsep' hends hrealm hfirst subTopic rfl hwildcard, hlast]
  simp only [htwo, full]

/-- **Reading a topic that was made for an application gives what it was made of.** If the topic is
not for control, the account must not be taken for a level in front of it. -/
theorem parse_topic {o : Options} (hsep : o.separator = String.singleton c)
    (hcontrol : c ∉ o.controlPrefix.toList) (haccount : c ∉ o.accountToken.toList)
    (hwild : c ∉ o.wildcard.toList) {device : Option String}
    (hdevice : c ∉ (device.getD o.clientToken).toList) {app : String} (happ : c ∉ app.toList)
    (appTopic : String) {control : Bool}
    (hdata : control = false →
      o.accountToken ≠ o.controlPrefix ∧ o.accountToken.toList.head? ≠ some '$') :
    parse o (o.topic device app appTopic control) =
      { full := o.topic device app appTopic control
        realm := if control then some o.controlPrefix else none
        account := o.accountToken
        client := device.getD o.clientToken
        app
        subTopic := appTopic
        requestId :=
          if control ∧ c ∈ appTopic.toList then some (Levels.afterLast c appTopic) else none } := by
  cases control with
  | false =>
    have hlevels : ∀ level ∈ (none : Option String).toList ++
        [o.accountToken, device.getD o.clientToken, app], c ∉ level.toList := by
      simp [haccount, hdevice, happ]
    simpa [Options.topic] using
      parse_join hsep hwild hlevels (by simp) (fun _ => not_or.2 (hdata rfl)) appTopic
  | true =>
    have hlevels : ∀ level ∈ (some o.controlPrefix).toList ++
        [o.accountToken, device.getD o.clientToken, app], c ∉ level.toList := by
      simp [hcontrol, haccount, hdevice, happ]
    simpa [Options.topic] using
      parse_join hsep hwild hlevels (by simp [IsRealm]) (by simp) appTopic

/-- Levels may be empty, and a data topic may begin with one. -/
theorem parse_topic_of_emptyLevels :
    let o : Options := { separator := ".", wildcard := "*", accountToken := "" }
    (o.separator = String.singleton '.' ∧ '.' ∉ o.controlPrefix.toList ∧
      '.' ∉ o.accountToken.toList ∧ '.' ∉ o.wildcard.toList ∧
      '.' ∉ ((some "gw-02").getD o.clientToken).toList ∧ '.' ∉ "".toList ∧
      (false = false → o.accountToken ≠ o.controlPrefix ∧
        o.accountToken.toList.head? ≠ some '$')) ∧
    parse o (o.topic (some "gw-02") "" "GET.." false) =
      { full := ".gw-02..GET..", client := "gw-02", subTopic := "GET.." } ∧
    parse o (o.topic (some "gw-02") "" "GET.." true) =
      { full := "$EDC..gw-02..GET..", realm := some "$EDC", client := "gw-02", subTopic := "GET.."
        requestId := some "" } := by
  intro o
  have hsep : o.separator = String.singleton '.' := rfl
  have hlevels : '.' ∉ o.controlPrefix.toList ∧ '.' ∉ o.accountToken.toList ∧
      '.' ∉ o.wildcard.toList ∧ '.' ∉ ((some "gw-02").getD o.clientToken).toList ∧
      '.' ∉ "".toList := by
    decide
  obtain ⟨hcontrol, haccount, hwild, hdevice, happ⟩ := hlevels
  have hdata : o.accountToken ≠ o.controlPrefix ∧ o.accountToken.toList.head? ≠ some '$' := by
    decide
  have hparse {control : Bool} :=
    parse_topic hsep hcontrol haccount hwild hdevice happ "GET.." (fun _ : control = false => hdata)
  exact ⟨⟨hsep, hcontrol, haccount, hwild, hdevice, happ, fun _ => hdata⟩, hparse.trans (by decide),
    hparse.trans (by decide)⟩

end Topic

end Uplink
