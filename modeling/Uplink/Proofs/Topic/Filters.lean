import Mathlib.Data.List.Forall2
import Uplink.Link.Broker
import Uplink.Proofs.Topic.Reading
import Uplink.Subscription

/-!
# What filters cover once their placeholders are filled in

The broker is given filters with the account and the client in the place of their placeholders,
while a message that arrives is compared with filters in which these places are open. The second
kind covers all that the first does. The filter for the gateway itself covers the control topics of
its account and client and no others.
-/

namespace Uplink.Filter

/-! ## 1. Levels that stand for more -/

/-- A level stands for all that another one stands for: it is the same, or it stands for any level
in the place of one that is not the wildcard. -/
def Loosens (wildcard f f' : String) : Prop := f' = f ∨ f ≠ wildcard ∧ f' = anyLevel

/-- A filter covers no less if its levels stand for more. -/
theorem covers_of_loosens {wildcard : String} (hwild : wildcard ≠ anyLevel)
    {fs fs' : List String} (h : List.Forall₂ (Loosens wildcard) fs fs') {ts : List String}
    (hc : covers wildcard fs ts = true) : covers wildcard fs' ts = true := by
  induction h generalizing ts with
  | nil => exact hc
  | @cons f f' fs fs' hf hrest ih =>
    have hempty : fs'.isEmpty = fs.isEmpty := by cases hrest <;> rfl
    cases ts with
    | nil =>
      -- Only the wildcard covers the end of a topic, and it was not replaced.
      rw [covers] at hc ⊢
      rcases hf with rfl | ⟨hne, -⟩
      · rwa [hempty]
      · simp [hne] at hc
    | cons t ts =>
      rw [covers] at hc ⊢
      rcases hf with rfl | ⟨hne, rfl⟩
      · rw [hempty]
        split
        · next hw => rwa [if_pos hw] at hc
        · next hw =>
          rw [if_neg hw, Bool.and_eq_true] at hc
          rw [Bool.and_eq_true]
          exact ⟨hc.1, ih hc.2⟩
      · rw [if_neg (by simpa using hne), Bool.and_eq_true] at hc
        rw [if_neg (by simpa using hwild.symm), ih hc.2]
        rfl

/-- The wildcard at the end stands for whatever follows. -/
theorem covers_concat_wildcard {wildcard : String} {fs : List String}
    (h : ∀ f ∈ fs, f ≠ wildcard ∧ f ≠ anyLevel) (ts : List String) :
    covers wildcard (fs ++ [wildcard]) ts = true ↔ fs <+: ts := by
  induction fs generalizing ts with
  | nil => cases ts <;> simp [covers]
  | cons f fs ih =>
    obtain ⟨⟨hwild, hany⟩, hrest⟩ := List.forall_mem_cons.1 h
    cases ts with
    | nil => simp [covers]
    | cons t ts =>
      rw [List.cons_append, covers, if_neg (by simpa using hwild), Bool.and_eq_true, ih hrest,
        List.cons_prefix_cons]
      simp [hany]

/-! ## 2. Placeholders -/

variable {c : Char}

/-- Levels that are changed one by one stay as many as they were. -/
theorem split_join_map_split {f : String → String}
    (h : ∀ level, c ∉ level.toList → c ∉ (f level).toList) (text : String) :
    Levels.split (String.singleton c) (Levels.join (String.singleton c)
      ((Levels.split (String.singleton c) text).map f)) =
      (Levels.split (String.singleton c) text).map f := by
  refine Levels.split_join (fun level hlevel => ?_) (by simp [Levels.split_ne_nil])
  obtain ⟨before, hbefore, rfl⟩ := List.mem_map.1 hlevel
  exact h before (Levels.notMem_of_mem_split hbefore)

/-- What a level becomes for the broker. -/
def fillIn (o : Options) (b : BrokerSection) (level : String) : String :=
  if level = o.accountToken then b.account
  else if level = o.clientToken then b.clientId
  else level

/-- Levels that are filled in stay as many as they were, if no separator is filled in. -/
theorem split_substitute_of_cut {o : Options} (hover : ¬Levels.Overlaps o.separator)
    (hsep : o.separator ≠ "") {b : BrokerSection}
    (haccount : Levels.cut o.separator b.account = none)
    (hclient : Levels.cut o.separator b.clientId = none) (filter : String) :
    Levels.split o.separator (Link.substitute o b filter) =
      (Levels.split o.separator filter).map (fillIn o b) := by
  refine Levels.split_join_of_cut_eq_none hover hsep (fun level hlevel => ?_)
    (by simp [Levels.split_ne_nil])
  obtain ⟨before, hbefore, rfl⟩ := List.mem_map.1 hlevel
  split_ifs
  exacts [haccount, hclient, Levels.cut_of_mem_split hsep hbefore]

theorem split_substitute {o : Options} (hsep : o.separator = String.singleton c)
    {b : BrokerSection} (haccount : c ∉ b.account.toList) (hclient : c ∉ b.clientId.toList)
    (filter : String) :
    Levels.split o.separator (Link.substitute o b filter) =
      (Levels.split o.separator filter).map (fillIn o b) :=
  split_substitute_of_cut (hsep ▸ Levels.not_overlaps_singleton c) (by simp [hsep])
    (hsep ▸ Levels.cut_of_notMem haccount) (hsep ▸ Levels.cut_of_notMem hclient) filter

theorem split_localize {o : Options} (hsep : o.separator = String.singleton c) (hplus : c ≠ '+')
    (filter : String) :
    Levels.split o.separator (localize o filter) =
      (Levels.split o.separator filter).map fun level =>
        if level = o.accountToken ∨ level = o.clientToken then anyLevel else level := by
  have hany : c ∉ anyLevel.toList := mt List.mem_singleton.1 hplus
  rw [localize, hsep]
  refine split_join_map_split (fun level hlevel => ?_) filter
  split_ifs
  exacts [hany, hlevel]

/-- **What the broker delivers for a record is covered by the record.** -/
theorem covers_of_matchesTopic_substitute {o : Options} (hsep : o.separator = String.singleton c)
    (hplus : c ≠ '+') (hwild : o.wildcard ≠ anyLevel) {b : BrokerSection}
    (haccount : c ∉ b.account.toList ∧ b.account ≠ o.wildcard)
    (hclient : c ∉ b.clientId.toList ∧ b.clientId ≠ o.wildcard) {r : SubscriptionRecord}
    {topic : String} (h : matchesTopic o (Link.substitute o b r.filter) topic = true) :
    r.covers o topic = true := by
  rw [matchesTopic, split_substitute hsep haccount.1 hclient.1] at h
  rw [SubscriptionRecord.covers, matchesTopic, split_localize hsep hplus]
  refine covers_of_loosens hwild ?_ h
  rw [List.forall₂_map_left_iff, List.forall₂_map_right_iff, List.forall₂_same]
  intro level _
  -- A placeholder is filled in for the broker and open here; any other level is the same.
  by_cases hat : level = o.accountToken
  · rw [fillIn, if_pos hat, if_pos (.inl hat)]
    exact .inr ⟨haccount.2, rfl⟩
  · by_cases hct : level = o.clientToken
    · rw [fillIn, if_neg hat, if_pos hct, if_pos (.inr hct)]
      exact .inr ⟨hclient.2, rfl⟩
    · rw [fillIn, if_neg hat, if_neg hct, if_neg (not_or.2 ⟨hat, hct⟩)]
      exact .inl rfl

/-- Placeholders between wildcards are covered up to the level above the last one. -/
theorem covers_parent_of_placeholders :
    let o : Options := { separator := ".", wildcard := "*" }
    let b : BrokerSection := { url := "mqtt://localhost", clientId := "gw-01", account := "acme" }
    let r : SubscriptionRecord := ⟨"+.#account-name.+.#client-id.*", .atLeastOnce⟩
    (o.separator = String.singleton '.' ∧ '.' ≠ '+' ∧ o.wildcard ≠ anyLevel ∧
      ('.' ∉ b.account.toList ∧ b.account ≠ o.wildcard) ∧
      ('.' ∉ b.clientId.toList ∧ b.clientId ≠ o.wildcard) ∧
      matchesTopic o (Link.substitute o b r.filter) "x.acme..gw-01" = true) ∧
    r.covers o "x.acme..gw-01" = true := by
  intro o b r
  have haccount : '.' ∉ b.account.toList ∧ b.account ≠ o.wildcard := by decide
  have hclient : '.' ∉ b.clientId.toList ∧ b.clientId ≠ o.wildcard := by decide
  have hwild : o.wildcard ≠ anyLevel := by decide
  have hcovers : matchesTopic o (Link.substitute o b r.filter) "x.acme..gw-01" = true := by decide
  exact ⟨⟨rfl, by decide, hwild, haccount, hclient, hcovers⟩,
    covers_of_matchesTopic_substitute (show o.separator = String.singleton '.' from rfl) (by decide)
      hwild haccount hclient hcovers⟩

/-! ## 3. The filter for the gateway itself -/

/-- The levels that mean something in a topic or a filter. -/
def specialLevels (o : Options) : List String :=
  [o.controlPrefix, o.accountToken, o.clientToken, o.wildcard]

/-- The levels that mean something can be told apart: each of them is one level with a text, and
they differ from each other and from the level that stands for any one. -/
structure TellsApart (c : Char) (o : Options) : Prop where
  separator : o.separator = String.singleton c
  isLevel : ∀ level ∈ specialLevels o, level ≠ "" ∧ c ∉ level.toList
  nodup : (anyLevel :: specialLevels o).Nodup

/-- A name can stand as a level of a topic or a filter for itself. -/
structure IsPlain (c : Char) (o : Options) (name : String) : Prop where
  nonempty : name ≠ ""
  notMem : c ∉ name.toList
  ne_anyLevel : name ≠ anyLevel
  ne_wildcard : name ≠ o.wildcard

theorem TellsApart.levels_ne {o : Options} (ho : TellsApart c o) :
    (o.controlPrefix ≠ anyLevel ∧ o.controlPrefix ≠ o.wildcard) ∧
      (o.controlPrefix ≠ o.accountToken ∧ o.controlPrefix ≠ o.clientToken) ∧
      o.accountToken ≠ o.clientToken ∧ o.wildcard ≠ o.accountToken ∧
      o.wildcard ≠ o.clientToken := by
  have hnodup := ho.nodup
  simp only [specialLevels, List.nodup_cons, List.mem_cons, List.not_mem_nil, or_false,
    not_or] at hnodup
  obtain ⟨⟨hany, -⟩, ⟨hpa, hpc, hpw⟩, ⟨hac, haw⟩, hcw, -⟩ := hnodup
  exact ⟨⟨Ne.symm hany, hpw⟩, ⟨hpa, hpc⟩, hac, Ne.symm haw, Ne.symm hcw⟩

/-- The control level and the wildcard are no placeholders, and one placeholder is not the other. -/
theorem TellsApart.map_fillIn {o : Options} (ho : TellsApart c o) (b : BrokerSection) :
    (specialLevels o).map (fillIn o b) =
      [o.controlPrefix, b.account, b.clientId] ++ [o.wildcard] := by
  obtain ⟨-, ⟨hpa, hpc⟩, hac, hwa, hwc⟩ := ho.levels_ne
  have hcontrol : fillIn o b o.controlPrefix = o.controlPrefix := by
    rw [fillIn, if_neg hpa, if_neg hpc]
  have haccount : fillIn o b o.accountToken = b.account := if_pos rfl
  have hclient : fillIn o b o.clientToken = b.clientId := by
    rw [fillIn, if_neg hac.symm, if_pos rfl]
  have hwild : fillIn o b o.wildcard = o.wildcard := by
    rw [fillIn, if_neg hwa, if_neg hwc]
  rw [specialLevels, List.map_cons, List.map_cons, List.map_cons, List.map_cons, hcontrol, haccount,
    hclient, hwild]
  rfl

theorem TellsApart.split_ofGateway {o : Options} (ho : TellsApart c o) {b : BrokerSection}
    (haccount : c ∉ b.account.toList) (hclient : c ∉ b.clientId.toList) :
    Levels.split o.separator (Link.substitute o b (ofGateway o)) =
      [o.controlPrefix, b.account, b.clientId] ++ [o.wildcard] := by
  have hsplit : Levels.split o.separator (ofGateway o) = specialLevels o := by
    rw [ofGateway, ho.separator]
    exact Levels.split_join (fun level hlevel => (ho.isLevel level hlevel).2) (List.cons_ne_nil _ _)
  rw [split_substitute ho.separator haccount hclient, hsplit, ho.map_fillIn]

/-- Levels that are not empty begin a list if they stand at its places. -/
theorem prefix_iff_getD {fs levels : List String} (h : ∀ f ∈ fs, f ≠ "") :
    fs <+: levels ↔ ∀ (i : Nat) (hi : i < fs.length), levels.getD i "" = fs[i] := by
  rw [List.prefix_iff_getElem?]
  refine forall₂_congr fun i hi => ?_
  rw [List.getD_eq_getElem?_getD]
  cases levels[i]? with
  | none => simpa using (h _ (List.getElem_mem hi)).symm
  | some level => simp

theorem prefix_split_iff {x y z : String} (h : ∀ f ∈ [x, y, z], f ≠ "") (sep text : String) :
    [x, y, z] <+: Levels.split sep text ↔
      Levels.nth sep text 0 = x ∧ Levels.nth sep text 1 = y ∧ Levels.nth sep text 2 = z := by
  rw [prefix_iff_getD h]
  constructor
  · intro hlevels
    exact ⟨hlevels 0 (by simp), hlevels 1 (by simp), hlevels 2 (by simp)⟩
  · rintro ⟨hx, hy, hz⟩ i hi
    match i with
    | 0 => exact hx
    | 1 => exact hy
    | 2 => exact hz

theorem TellsApart.isPlain_controlPrefix {o : Options} (ho : TellsApart c o) :
    IsPlain c o o.controlPrefix := by
  obtain ⟨hnonempty, hnotMem⟩ := ho.isLevel o.controlPrefix List.mem_cons_self
  obtain ⟨⟨hany, hwild⟩, -⟩ := ho.levels_ne
  exact ⟨hnonempty, hnotMem, hany, hwild⟩

/-- With a control level that is neither empty nor the wildcard, the first level decides. -/
theorem TellsApart.isControl_parse_iff {o : Options} (ho : TellsApart c o) (topic : String) :
    (Topic.parse o topic).isControl o = true ↔
      Levels.nth o.separator topic 0 = o.controlPrefix := by
  have hsep : o.separator ≠ "" := by simp [ho.separator]
  have hcontrol := ho.isPlain_controlPrefix
  have hwild := (ho.isLevel o.wildcard (by simp [specialLevels])).2
  rw [Topic.isControl_parse_iff hsep, ← and_assoc]
  refine and_iff_right_of_imp fun hfirst => ⟨?_, ?_⟩
  · rintro rfl
    rw [Levels.nth, Levels.split_empty hsep] at hfirst
    exact hcontrol.nonempty hfirst.symm
  · rintro rfl
    have hsplit := Levels.split_join (List.forall_mem_singleton.2 hwild) (List.cons_ne_nil _ _)
    rw [Levels.join, String.intercalate_singleton, ← ho.separator] at hsplit
    rw [Levels.nth, hsplit] at hfirst
    exact hcontrol.ne_wildcard hfirst.symm

/-- **The filter for the gateway itself covers the control topics of its account and client and no
others.** -/
theorem matchesTopic_ofGateway_iff {o : Options} (ho : TellsApart c o) {b : BrokerSection}
    (haccount : IsPlain c o b.account) (hclient : IsPlain c o b.clientId) (topic : String) :
    matchesTopic o (Link.substitute o b (ofGateway o)) topic = true ↔
      (Topic.parse o topic).isControl o = true ∧ (Topic.parse o topic).account = b.account ∧
        (Topic.parse o topic).client = b.clientId := by
  have hsep : o.separator ≠ "" := by simp [ho.separator]
  have hplain : ∀ f ∈ [o.controlPrefix, b.account, b.clientId], IsPlain c o f := by
    simp [ho.isPlain_controlPrefix, haccount, hclient]
  rw [matchesTopic, ho.split_ofGateway haccount.notMem hclient.notMem,
    covers_concat_wildcard fun f hf => ⟨(hplain f hf).ne_wildcard, (hplain f hf).ne_anyLevel⟩,
    prefix_split_iff fun f hf => (hplain f hf).nonempty, ho.isControl_parse_iff]
  refine and_congr_right fun hfirst => ?_
  -- With the control level in front, account and client are the second and the third level.
  have hrealm : Topic.realmLevels o topic = 1 :=
    if_pos ((Topic.hasRealm_iff o topic).2 (.inl hfirst))
  obtain ⟨htext, hwild, -⟩ :=
    (Topic.isControl_parse_iff hsep).1 ((ho.isControl_parse_iff topic).2 hfirst)
  obtain ⟨-, haccount, hclient, -⟩ := Topic.parse_levels hsep htext hwild
  rw [haccount, hclient, hrealm]

/-- Nothing need follow the client. -/
theorem matchesTopic_ofGateway_parent :
    let o : Options := { separator := ".", wildcard := "*" }
    let b : BrokerSection := { url := "mqtt://localhost", clientId := "gw-01", account := "acme" }
    (TellsApart '.' o ∧ IsPlain '.' o b.account ∧ IsPlain '.' o b.clientId) ∧
      (Topic.parse o "$EDC.acme.gw-01").isControl o = true ∧
      (Topic.parse o "$EDC.acme.gw-01").account = "acme" ∧
      (Topic.parse o "$EDC.acme.gw-01").client = "gw-01" := by
  intro o b
  have ho : TellsApart '.' o := ⟨rfl, by decide, by decide⟩
  have haccount : IsPlain '.' o b.account := ⟨by decide, by decide, by decide, by decide⟩
  have hclient : IsPlain '.' o b.clientId := ⟨by decide, by decide, by decide, by decide⟩
  have hcovers : matchesTopic o (Link.substitute o b (ofGateway o)) "$EDC.acme.gw-01" = true := by
    decide
  exact ⟨⟨ho, haccount, hclient⟩, (matchesTopic_ofGateway_iff ho haccount hclient _).1 hcovers⟩

end Uplink.Filter
