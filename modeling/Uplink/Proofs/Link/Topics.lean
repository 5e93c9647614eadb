import Uplink.Proofs.Options
import Uplink.Proofs.Topic.Filters

/-!
# Topics of a configuration

The topics of applications go to the broker with the names of a configuration in the place of their
placeholders. The module says for which of the configurations that are accepted such a topic is
always read back as the parts it was made of. The names may have dots and colons in them, and a
separator may be any text, so that not all of them are.
-/

namespace Uplink

open Uplink.Filter

/-- An application and its topic, whose levels stand for themselves. -/
structure Topic.IsPlain (o : Options) (app appTopic : String) : Prop where
  app_ne : app ≠ ""
  cut_app : Levels.cut o.separator app = none
  not_token : ∀ level ∈ app :: Levels.split o.separator appTopic,
    level ≠ o.accountToken ∧ level ≠ o.clientToken

namespace Config

variable {c : Config} {app appTopic : String} {control : Bool}

/-- The topic of an application as it goes to the broker. -/
def wireTopic (c : Config) (app appTopic : String) (control : Bool) : String :=
  Link.substitute c.options c.broker (c.options.topic none app appTopic control)

/-- The topic of an application is read as what it was made of. -/
structure ReadsBack (c : Config) (app appTopic : String) (control : Bool) (t : Topic) : Prop where
  isControl : t.isControl c.options = control
  account : t.account = c.broker.account
  client : t.client = c.broker.clientId
  app : t.app = app
  subTopic : t.subTopic = appTopic

/-- The names and the placeholders are levels, and placeholders are filled in where they should. -/
structure FillsIn (c : Config) : Prop where
  not_overlaps : ¬Levels.Overlaps c.options.separator
  cut_account : Levels.cut c.options.separator c.broker.account = none
  cut_clientId : Levels.cut c.options.separator c.broker.clientId = none
  cut_accountToken : Levels.cut c.options.separator c.options.accountToken = none
  cut_clientToken : Levels.cut c.options.separator c.options.clientToken = none
  fillIn_controlPrefix :
    fillIn c.options c.broker c.options.controlPrefix = c.options.controlPrefix
  fillIn_clientToken : fillIn c.options c.broker c.options.clientToken = c.broker.clientId

/-- Nor is a topic taken for one of another kind. -/
structure TopicsReadBack (c : Config) : Prop extends c.FillsIn where
  account_ne : c.broker.account ≠ c.options.controlPrefix
  wildcard_ne : ∀ app appTopic control, Topic.IsPlain c.options app appTopic →
    c.wireTopic app appTopic control ≠ c.options.wildcard

/-! ## 1. What an accepted configuration is -/

theorem fault?_eq_none_of_validate (h : c.validate = .ok ()) :
    c.options.fault? = none ∧ levelFault? "client_id" c.broker.clientId = none ∧
      levelFault? "account_name" c.broker.account = none ∧ addressFault? c.broker.url = none := by
  rw [validate] at h
  split at h
  · cases h
  · next hfault => simpa [fault?] using hfault

theorem inOrder_of_validate (h : c.validate = .ok ()) : c.options.InOrder :=
  Options.inOrder_of_fault? (fault?_eq_none_of_validate h).1

theorem isLevelChar_of_levelFault? {setting value : String} (h : levelFault? setting value = none) :
    ∀ ch ∈ value.toList, isLevelChar ch := by
  rw [levelFault?] at h
  obtain ⟨hfault, -⟩ := Options.and_of_ite_eq_none h
  rw [Bool.or_eq_true, not_or, Bool.not_eq_true, Bool.not_eq_true, Bool.not_eq_false'] at hfault
  exact List.all_eq_true.1 hfault.2

theorem not_isRealm_account (h : c.validate = .ok ())
    (hne : c.broker.account ≠ c.options.controlPrefix) :
    ¬Topic.IsRealm c.options c.broker.account := by
  have hchars := isLevelChar_of_levelFault? (fault?_eq_none_of_validate h).2.2.1
  rintro (heq | hdollar)
  · exact hne heq
  · exact absurd (hchars '$' (List.mem_of_mem_head? hdollar)) (by decide)

/-! ## 2. Where topics are read back -/

theorem join_append_split {sep : String} (hsep : sep ≠ "") {levels : List String}
    (hne : levels ≠ []) (text : String) :
    Levels.join sep (levels ++ Levels.split sep text) = Levels.join sep (levels ++ [text]) := by
  rw [Levels.join, Levels.join, String.intercalate_append_of_ne_nil hne (Levels.split_ne_nil _ _),
    String.intercalate_append_of_ne_nil hne (List.cons_ne_nil _ _), String.intercalate_singleton]
  exact congrArg _ (Levels.join_split hsep text)

def realmOf (c : Config) (control : Bool) : Option String :=
  if control then some c.options.controlPrefix else none

/-- Before anything is filled in, only the topic of the application is more than one level. -/
theorem FillsIn.split_topic (h : c.FillsIn) (ho : c.options.InOrder)
    (hplain : Topic.IsPlain c.options app appTopic) (control : Bool) :
    Levels.split c.options.separator (c.options.topic none app appTopic control) =
      (c.realmOf control).toList ++ [c.options.accountToken, c.options.clientToken, app] ++
        if appTopic.isEmpty then [] else Levels.split c.options.separator appTopic := by
  have hsplit {level : String} (hcut : Levels.cut c.options.separator level = none) :=
    Levels.split_of_cut_eq_none ho.separator hcut
  rw [Options.topic, Levels.split_join_flatMap h.not_overlaps ho.separator (by simp), realmOf]
  by_cases hempty : appTopic = "" <;> cases control <;>
    simp [hempty, hsplit h.cut_accountToken, hsplit h.cut_clientToken, hsplit hplain.cut_app,
      hsplit ho.cut_controlPrefix]

theorem FillsIn.wireTopic_eq (h : c.FillsIn) (ho : c.options.InOrder)
    (hplain : Topic.IsPlain c.options app appTopic) (control : Bool) :
    c.wireTopic app appTopic control = Levels.join c.options.separator
      ((c.realmOf control).toList ++ [c.broker.account, c.broker.clientId, app] ++
        if appTopic.isEmpty then [] else [appTopic]) := by
  have hkeep : ∀ level ∈ app :: Levels.split c.options.separator appTopic,
      fillIn c.options c.broker level = level := fun level hlevel => by
    obtain ⟨haccount, hclient⟩ := hplain.not_token level hlevel
    rw [fillIn, if_neg haccount, if_neg hclient]
  obtain ⟨happ, happTopic⟩ := List.forall_mem_cons.1 hkeep
  have haccount : fillIn c.options c.broker c.options.accountToken = c.broker.account := if_pos rfl
  have hrealm : (c.realmOf control).toList.map (fillIn c.options c.broker) =
      (c.realmOf control).toList := by
    cases control <;> simp [realmOf, h.fillIn_controlPrefix]
  have hfilled : c.wireTopic app appTopic control = Levels.join c.options.separator
      ((Levels.split c.options.separator (c.options.topic none app appTopic control)).map
        (fillIn c.options c.broker)) := rfl
  rw [hfilled, h.split_topic ho hplain, List.map_append, List.map_append, hrealm, List.map_cons,
    List.map_cons, List.map_singleton, haccount, h.fillIn_clientToken, happ]
  by_cases hempty : appTopic.isEmpty
  · rw [if_pos hempty, if_pos hempty, List.map_nil]
  · rw [if_neg hempty, if_neg hempty, List.map_congr_left happTopic, List.map_id',
      join_append_split ho.separator (by simp)]

theorem TopicsReadBack.readsBack (h : c.TopicsReadBack) (hc : c.validate = .ok ())
    (hplain : Topic.IsPlain c.options app appTopic) (control : Bool) :
    c.ReadsBack app appTopic control
      (Topic.parse c.options (c.wireTopic app appTopic control)) := by
  have ho := inOrder_of_validate hc
  have hends : ∀ level ∈ (c.realmOf control).toList ++ [c.broker.account, c.broker.clientId, app],
      Levels.Ends c.options.separator level := fun level hlevel => by
    refine Levels.ends_of_cut_eq_none h.not_overlaps ho.separator ?_
    rw [List.mem_append, Option.mem_toList] at hlevel
    rcases hlevel with hlevel | hlevel
    · cases control with
      | true => exact Option.mem_some.1 hlevel ▸ ho.cut_controlPrefix
      | false => cases hlevel
    · simp only [List.mem_cons, List.not_mem_nil, or_false] at hlevel
      rcases hlevel with rfl | rfl | rfl
      exacts [h.cut_account, h.cut_clientId, hplain.cut_app]
  have hrealm : ∀ level ∈ c.realmOf control, Topic.IsRealm c.options level := by
    cases control <;> simp [realmOf, Topic.IsRealm]
  rw [Topic.parse_join_of_ends ho.separator hends hrealm
    (fun _ => not_isRealm_account hc h.account_ne) appTopic (h.wireTopic_eq ho hplain control)
    (h.wildcard_ne _ _ _ hplain)]
  refine ⟨?_, rfl, rfl, rfl, rfl⟩
  cases control with
  | true => exact beq_self_eq_true _
  | false => rfl

/-- A wildcard without separators is no topic. -/
theorem FillsIn.wireTopic_ne_of_notMem (h : c.FillsIn) (ho : c.options.InOrder)
    (hplain : Topic.IsPlain c.options app appTopic) (control : Bool) {ch : Char}
    (hsep : c.options.separator = String.singleton ch) (hwild : ch ∉ c.options.wildcard.toList) :
    c.wireTopic app appTopic control ≠ c.options.wildcard := by
  have hmem : ch ∈ (c.wireTopic app appTopic control).toList := by
    rw [h.wireTopic_eq ho hplain, hsep]
    cases control <;> exact Levels.mem_join ..
  exact fun heq => hwild (heq ▸ hmem)

/-! ## 3. Where they are not -/

/-- A character that begins neither a separator nor a placeholder. -/
theorem exists_ne_heads (x y z : Option Char) :
    ∃ u : Char, x ≠ some u ∧ y ≠ some u ∧ z ≠ some u := by
  by_contra h
  -- Each of four characters would have to be one of the three.
  have ha := mt (fun h' => ⟨'a', h'⟩) h
  have hb := mt (fun h' => ⟨'b', h'⟩) h
  have hc := mt (fun h' => ⟨'c', h'⟩) h
  have hd := mt (fun h' => ⟨'d', h'⟩) h
  grind

theorem ne_of_head {text token : String} {u : Char} (hne : token.toList.head? ≠ some u)
    (h : text.toList.head? = some u) : text ≠ token := by
  rintro rfl
  exact hne h

theorem isPlain_of_heads {o : Options} (hsep : o.separator ≠ "") {u : Char}
    (hu : o.separator.toList.head? ≠ some u ∧ o.accountToken.toList.head? ≠ some u ∧
      o.clientToken.toList.head? ≠ some u) {x : String}
    (hcut : Levels.cut o.separator (String.singleton u ++ x) = none) :
    Topic.IsPlain o (String.singleton u ++ x) (String.singleton u) := by
  obtain ⟨husep, huaccount, huclient⟩ := hu
  refine ⟨by simp, hcut, ?_⟩
  rw [Levels.split_of_cut_eq_none hsep (Levels.cut_singleton_eq_none hsep husep)]
  have hhead : ∀ level ∈ [String.singleton u ++ x, String.singleton u],
      level.toList.head? = some u := by simp
  exact fun level hlevel => ⟨ne_of_head huaccount (hhead level hlevel),
    ne_of_head huclient (hhead level hlevel)⟩

theorem exists_isPlain {o : Options} (ho : o.InOrder) :
    ∃ app appTopic, Topic.IsPlain o app appTopic := by
  obtain ⟨u, hu⟩ := exists_ne_heads o.separator.toList.head? o.accountToken.toList.head?
    o.clientToken.toList.head?
  have hcut := Levels.cut_singleton_eq_none ho.separator hu.1
  exact ⟨_, _, isPlain_of_heads ho.separator hu (x := "") (by rwa [String.append_empty])⟩

theorem FillsIn.first_of_data (h : c.FillsIn) (ho : c.options.InOrder)
    (hplain : Topic.IsPlain c.options app appTopic) :
    c.wireTopic app appTopic false ≠ "" ∧
      Levels.nth c.options.separator (c.wireTopic app appTopic false) 0 = c.broker.account := by
  have hends := Levels.ends_of_cut_eq_none h.not_overlaps ho.separator h.cut_account
  rw [h.wireTopic_eq ho hplain false]
  constructor
  · simp [realmOf, Levels.join_cons_cons, ho.separator]
  · rw [← getD_takeLevel ho.separator]
    exact congrArg (fun p => p.1.getD "") (Topic.takeLevel_join ho.separator hends _ _)

/-- A topic for control that is read back has the levels that it should, and they end. -/
theorem ReadsBack.join_eq (ho : c.options.InOrder) (hne : appTopic ≠ "")
    (h : c.ReadsBack app appTopic true
      (Topic.parse c.options (c.wireTopic app appTopic true))) :
    Levels.join c.options.separator
        [c.options.controlPrefix, c.broker.account, c.broker.clientId, app, appTopic] =
      c.wireTopic app appTopic true ∧
    ∀ level ∈ [c.options.controlPrefix, c.broker.account, c.broker.clientId, app],
      Levels.Ends c.options.separator level := by
  have hjoin := Topic.join_parse ho.separator (h.subTopic ▸ hne)
  have hrealm := beq_iff_eq.1 h.isControl
  simp only [h.account, h.client, h.app, h.subTopic, hrealm] at hjoin
  exact hjoin

/-- A topic for control that has as many levels as it should has one for each placeholder. -/
theorem fillIn_of_split_wireTopic (ho : c.options.InOrder)
    (hover : ¬Levels.Overlaps c.options.separator)
    (haccount : Levels.cut c.options.separator c.broker.account = none)
    (hclient : Levels.cut c.options.separator c.broker.clientId = none)
    (happ : Levels.cut c.options.separator app = none) (hne : appTopic ≠ "")
    (h : Levels.split c.options.separator (c.wireTopic app appTopic true) =
      [c.options.controlPrefix, c.broker.account, c.broker.clientId, app] ++
        Levels.split c.options.separator appTopic) :
    Levels.cut c.options.separator c.options.accountToken = none ∧
      Levels.cut c.options.separator c.options.clientToken = none ∧
      fillIn c.options c.broker c.options.controlPrefix = c.options.controlPrefix ∧
      fillIn c.options c.broker c.options.clientToken = c.broker.clientId := by
  have hsplit : Levels.split c.options.separator (c.options.topic none app appTopic true) =
      c.options.controlPrefix :: (Levels.split c.options.separator c.options.accountToken ++
        (Levels.split c.options.separator c.options.clientToken ++
          app :: Levels.split c.options.separator appTopic)) := by
    rw [Options.topic, Levels.split_join_flatMap hover ho.separator (by simp)]
    simp [hne, Levels.split_of_cut_eq_none ho.separator ho.cut_controlPrefix,
      Levels.split_of_cut_eq_none ho.separator happ]
  have hlevels := h.symm.trans (split_substitute_of_cut hover ho.separator haccount hclient _)
  rw [hsplit] at hlevels
  -- Each token is one level at least, and together they leave room for one each.
  have hlen := congrArg List.length hlevels
  have haccountPos := List.length_pos_iff.2
    (Levels.split_ne_nil c.options.separator c.options.accountToken)
  have hclientPos := List.length_pos_iff.2
    (Levels.split_ne_nil c.options.separator c.options.clientToken)
  simp only [List.length_cons, List.length_map, List.length_append, List.length_nil] at hlen
  have haccountToken : Levels.cut c.options.separator c.options.accountToken = none :=
    Levels.cut_eq_none_of_length_split ho.separator (by omega)
  have hclientToken : Levels.cut c.options.separator c.options.clientToken = none :=
    Levels.cut_eq_none_of_length_split ho.separator (by omega)
  rw [Levels.split_of_cut_eq_none ho.separator haccountToken,
    Levels.split_of_cut_eq_none ho.separator hclientToken] at hlevels
  simp only [List.map_cons, List.cons_append, List.nil_append, List.cons.injEq] at hlevels
  obtain ⟨hcontrol, -, hfilled, -⟩ := hlevels
  exact ⟨haccountToken, hclientToken, hcontrol.symm, hfilled.symm⟩

theorem fillsIn_of_readsBack (ho : c.options.InOrder)
    (h : ∀ app appTopic, Topic.IsPlain c.options app appTopic →
      c.ReadsBack app appTopic true (Topic.parse c.options (c.wireTopic app appTopic true))) :
    c.FillsIn := by
  obtain ⟨u, hu⟩ := exists_ne_heads c.options.separator.toList.head?
    c.options.accountToken.toList.head? c.options.clientToken.toList.head?
  have hcut := Levels.cut_singleton_eq_none ho.separator hu.1
  have hplain := isPlain_of_heads ho.separator hu (x := "") (by rwa [String.append_empty])
  rw [String.append_empty] at hplain
  obtain ⟨hjoin, hends⟩ := (h _ _ hplain).join_eq ho String.singleton_ne_empty
  simp only [List.forall_mem_cons] at hends
  obtain ⟨-, hendsAccount, hendsClient, -, -⟩ := hends
  have haccount := hendsAccount.cut_eq_none ho.separator
  have hclient := hendsClient.cut_eq_none ho.separator
  have hover : ¬Levels.Overlaps c.options.separator := fun hover => by
    -- An application could end in the beginning of a separator.
    obtain ⟨x, -, hx⟩ := Levels.exists_not_ends hover
    obtain ⟨hcutx, hnot⟩ := hx u hu.1
    exact hnot (((h _ _ (isPlain_of_heads ho.separator hu hcutx)).join_eq ho
      String.singleton_ne_empty).2 _ (by simp))
  have hlevels : Levels.split c.options.separator
      (c.wireTopic (String.singleton u) (String.singleton u) true) =
        [c.options.controlPrefix, c.broker.account, c.broker.clientId, String.singleton u] ++
          Levels.split c.options.separator (String.singleton u) := by
    rw [← hjoin, Levels.split_of_cut_eq_none ho.separator hcut,
      Levels.split_join_of_cut_eq_none hover ho.separator
        (by simp [ho.cut_controlPrefix, haccount, hclient, hcut]) (by simp)]
    rfl
  obtain ⟨haccountToken, hclientToken, hcontrol, hfilled⟩ :=
    fillIn_of_split_wireTopic ho hover haccount hclient hcut String.singleton_ne_empty hlevels
  exact ⟨hover, haccount, hclient, haccountToken, hclientToken, hcontrol, hfilled⟩

theorem parse_wildcard (o : Options) : Topic.parse o o.wildcard = { full := o.wildcard } := by
  rw [Topic.parse, if_pos (.inr rfl)]

theorem topicsReadBack_of_readsBack (ho : c.options.InOrder)
    (h : ∀ app appTopic control, Topic.IsPlain c.options app appTopic →
      c.ReadsBack app appTopic control
        (Topic.parse c.options (c.wireTopic app appTopic control))) : c.TopicsReadBack := by
  have hfills := fillsIn_of_readsBack ho fun app appTopic hplain => h app appTopic true hplain
  have hwild : ∀ app appTopic control, Topic.IsPlain c.options app appTopic →
      c.wireTopic app appTopic control ≠ c.options.wildcard := by
    intro app appTopic control hplain heq
    have happ := (h app appTopic control hplain).app
    rw [heq, parse_wildcard] at happ
    exact hplain.app_ne happ.symm
  refine ⟨hfills, fun haccount => ?_, hwild⟩
  -- A topic that is not for control would begin with the level of those that are.
  obtain ⟨app, appTopic, hplain⟩ := exists_isPlain ho
  obtain ⟨hne, hfirst⟩ := hfills.first_of_data ho hplain
  have hdata := (h app appTopic false hplain).isControl
  have hcontrol := (Topic.isControl_parse_iff ho.separator).2
    ⟨hne, hwild app appTopic false hplain, hfirst.trans haccount⟩
  exact Bool.false_ne_true (hdata.symm.trans hcontrol)

/-- **Which accepted configurations have topics that are read back.** -/
theorem readsBack_iff_topicsReadBack (hc : c.validate = .ok ()) :
    (∀ app appTopic control, Topic.IsPlain c.options app appTopic →
      c.ReadsBack app appTopic control
        (Topic.parse c.options (c.wireTopic app appTopic control))) ↔ c.TopicsReadBack :=
  ⟨topicsReadBack_of_readsBack (inOrder_of_validate hc),
    fun h _ _ control hplain => h.readsBack hc hplain control⟩

/-- Dots and colons in names do no harm between slashes. -/
theorem readsBack_between_slashes :
    let c : Config :=
      { broker := { url := "mqtt://localhost", account := "acme.eu", clientId := "gw:01" } }
    c.validate = .ok () ∧ Topic.IsPlain c.options "CONF-V1" "GET/configurations/1" ∧
      c.ReadsBack "CONF-V1" "GET/configurations/1" true
        (Topic.parse c.options "$EDC/acme.eu/gw:01/CONF-V1/GET/configurations/1") := by
  intro c
  have hc : c.validate = .ok () := by decide
  have hplain : Topic.IsPlain c.options "CONF-V1" "GET/configurations/1" :=
    ⟨by decide, by decide, by decide⟩
  have hfills : c.FillsIn := ⟨Levels.not_overlaps_singleton '/', by decide, by decide, by decide,
    by decide, by decide, by decide⟩
  have hsep : c.options.separator = String.singleton '/' := rfl
  have hback : c.TopicsReadBack := ⟨hfills, by decide, fun _ _ control hplain =>
    hfills.wireTopic_ne_of_notMem (inOrder_of_validate hc) hplain control hsep (by decide)⟩
  have hwire : c.wireTopic "CONF-V1" "GET/configurations/1" true =
      "$EDC/acme.eu/gw:01/CONF-V1/GET/configurations/1" := by
    decide
  exact ⟨hc, hplain, hwire ▸ (readsBack_iff_topicsReadBack hc).2 hback _ _ true hplain⟩

/-- Between dots, a name that is accepted can be two levels. And an account can have the name of the
level in front of the topics for control. -/
theorem not_readsBack :
    let dotted : Config :=
      { options := { separator := "." }
        broker := { url := "mqtt://localhost", account := "acme.eu", clientId := "gw-01" } }
    let named : Config :=
      { options := { controlPrefix := "EDC" }
        broker := { url := "mqtt://localhost", account := "EDC", clientId := "gw-01" } }
    (dotted.validate = .ok () ∧ Topic.IsPlain dotted.options "CONF-V1" "GET" ∧
      ¬dotted.ReadsBack "CONF-V1" "GET" true
        (Topic.parse dotted.options (dotted.wireTopic "CONF-V1" "GET" true))) ∧
    (named.validate = .ok () ∧ Topic.IsPlain named.options "CONF-V1" "GET" ∧
      ¬named.ReadsBack "CONF-V1" "GET" false
        (Topic.parse named.options (named.wireTopic "CONF-V1" "GET" false))) := by
  intro dotted named
  refine ⟨⟨by decide, ⟨by decide, by decide, by decide⟩, fun h => ?_⟩,
    ⟨by decide, ⟨by decide, by decide, by decide⟩, fun h => ?_⟩⟩
  · exact absurd h.account (by decide)
  · exact absurd h.isControl (by decide)

end Config

end Uplink
