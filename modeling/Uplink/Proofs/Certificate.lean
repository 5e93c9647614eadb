import Uplink.Proofs.Options
import Uplink.Proofs.Text.Levels

/-!
# Where certificates go

The suffix of a certificate is cut in two at its first separator, into an application and a topic of
it, and the two are put together again behind the placeholders. The suffix comes back as it was
unless one of the two is empty. Without an application there is nowhere to go, and no separator is
written where no topic follows it.
-/

namespace Uplink.Certificate

variable {o : Options} {suffix app topic : String}

/-- The topic of whatever stands behind the placeholders. -/
def placed (o : Options) (ending : String) : String :=
  Levels.join o.separator [o.controlPrefix, o.accountToken, o.clientToken, ending]

/-- There is something on both sides of the first separator of a suffix, if it has one. -/
def NamesTopic (o : Options) (suffix : String) : Prop :=
  ∀ app topic, Levels.cut o.separator suffix = some (app, topic) → app ≠ "" ∧ topic ≠ ""

/-! ## 1. A suffix that was cut and put together again -/

theorem placed_eq_append (o : Options) (ending : String) :
    placed o ending =
      o.controlPrefix ++ (o.separator ++ (o.accountToken ++ (o.separator ++
        (o.clientToken ++ o.separator)))) ++ ending := by
  simp only [placed, Levels.join_cons_cons, String.append_assoc]
  rw [Levels.join, String.intercalate_singleton]

theorem placed_inj {x y : String} : placed o x = placed o y ↔ x = y := by
  rw [placed_eq_append, placed_eq_append, String.append_right_inj]

theorem topic_of_ne (h : topic ≠ "") :
    o.topic none app topic true = placed o (app ++ (o.separator ++ topic)) := by
  rw [Options.topic, if_neg (mt String.isEmpty_iff.1 h), placed_eq_append]
  show Levels.join o.separator [o.controlPrefix, o.accountToken, o.clientToken, app, topic] = _
  simp only [Levels.join_cons_cons, String.append_assoc]
  rw [Levels.join, String.intercalate_singleton]

theorem resolve_build (clock : Clock) (o : Options) (device : Device) (apps : List String)
    (kind : CertificateKind) :
    (build clock o device apps kind).destination.resolve o =
      if (target o (kind.suffix o)).1.isEmpty then .error .emptyApp
      else .ok (o.topic none (target o (kind.suffix o)).1 (target o (kind.suffix o)).2 true) :=
  rfl

/-! ## 2. What becomes of a suffix -/

section Suffixes

variable {clock : Clock} {device : Device} {apps : List String} {kind : CertificateKind}

theorem resolve_of_cut_eq_none (ho : o.InOrder)
    (h : Levels.cut o.separator (kind.suffix o) = none) :
    (build clock o device apps kind).destination.resolve o = .ok (placed o (kind.suffix o)) := by
  rw [resolve_build, target, h, Option.getD_none, if_neg (mt String.isEmpty_iff.1 (ho.suffix kind))]
  rfl

theorem resolve_of_cut (h : Levels.cut o.separator (kind.suffix o) = some (app, topic))
    (happ : app ≠ "") (htopic : topic ≠ "") :
    (build clock o device apps kind).destination.resolve o = .ok (placed o (kind.suffix o)) := by
  rw [resolve_build, target, h, Option.getD_some, if_neg (mt String.isEmpty_iff.1 happ),
    topic_of_ne htopic, Levels.append_of_cut h]

theorem resolve_of_cut_empty_topic (h : Levels.cut o.separator (kind.suffix o) = some (app, ""))
    (happ : app ≠ "") :
    (build clock o device apps kind).destination.resolve o = .ok (placed o app) := by
  rw [resolve_build, target, h, Option.getD_some, if_neg (mt String.isEmpty_iff.1 happ)]
  rfl

theorem resolve_of_cut_empty_app
    (h : Levels.cut o.separator (kind.suffix o) = some ("", topic)) :
    (build clock o device apps kind).destination.resolve o = .error .emptyApp := by
  rw [resolve_build, target, h]
  rfl

theorem namesTopic_of_resolve (ho : o.InOrder)
    (h : (build clock o device apps kind).destination.resolve o = .ok (placed o (kind.suffix o))) :
    NamesTopic o (kind.suffix o) := by
  intro app topic hcut
  by_cases happ : app = ""
  · subst happ
    rw [resolve_of_cut_empty_app hcut] at h
    cases h
  · refine ⟨happ, fun htopic => ho.separator ?_⟩
    -- The suffix would be the application alone, although it has a separator.
    subst htopic
    rw [resolve_of_cut_empty_topic hcut happ] at h
    have hsuffix : app = kind.suffix o := placed_inj.1 (Except.ok.inj h)
    have happend := Levels.append_of_cut hcut
    rw [← hsuffix, String.append_eq_left_iff] at happend
    exact (String.append_eq_empty_iff.1 happend).1

theorem resolve_of_namesTopic (ho : o.InOrder) (h : NamesTopic o (kind.suffix o)) :
    (build clock o device apps kind).destination.resolve o = .ok (placed o (kind.suffix o)) := by
  cases hcut : Levels.cut o.separator (kind.suffix o) with
  | none => exact resolve_of_cut_eq_none ho hcut
  | some parts => exact resolve_of_cut hcut (h _ _ hcut).1 (h _ _ hcut).2

theorem resolve_eq_error_iff (ho : o.InOrder) :
    (build clock o device apps kind).destination.resolve o = .error .emptyApp ↔
      ∃ rest, kind.suffix o = o.separator ++ rest := by
  constructor
  · intro h
    cases hcut : Levels.cut o.separator (kind.suffix o) with
    | none =>
      rw [resolve_of_cut_eq_none ho hcut] at h
      cases h
    | some parts =>
      obtain ⟨app, topic⟩ := parts
      have happ : app = "" := by
        by_contra happ
        rw [resolve_build, target, hcut, Option.getD_some,
          if_neg (mt String.isEmpty_iff.1 happ)] at h
        cases h
      exact ⟨topic, by rw [← Levels.append_of_cut hcut, happ, String.empty_append]⟩
  · rintro ⟨rest, hsuffix⟩
    have hcut : Levels.cut o.separator (kind.suffix o) = some ("", rest) := by
      rw [hsuffix]
      exact Levels.cut_separator_append ho.separator rest
    exact resolve_of_cut_empty_app hcut

end Suffixes

/-! ## 3. Accepted options -/

/-- A certificate of accepted options goes where its suffix says exactly if that names a topic. It
has nowhere to go if the suffix begins with the separator, and where the first separator is the end
of the suffix, the topic lacks it. How it is published is as the options say in any case. -/
theorem resolve_build_iff_namesTopic (hvalid : o.validate = .ok ()) (clock : Clock)
    (device : Device) (apps : List String) (kind : CertificateKind) :
    let m := build clock o device apps kind
    (m.destination.resolve o = .ok (placed o (kind.suffix o)) ↔ NamesTopic o (kind.suffix o)) ∧
    (m.destination.resolve o = .error .emptyApp ↔ ∃ rest, kind.suffix o = o.separator ++ rest) ∧
    (∀ app, Levels.cut o.separator (kind.suffix o) = some (app, "") → app ≠ "" →
      m.destination.resolve o = .ok (placed o app)) ∧
    m.retain = o.lifecycleRetain ∧ m.priority = o.lifecyclePriority ∧
    m.qos.level = o.lifecycleQos := by
  have ho := Options.inOrder_of_validate hvalid
  exact ⟨⟨namesTopic_of_resolve ho, resolve_of_namesTopic ho⟩, resolve_eq_error_iff ho,
    fun app hcut happ => resolve_of_cut_empty_topic hcut happ, rfl, rfl,
    Options.level_lifecycleGuarantee hvalid⟩

/-- The application list without a suffix of its own, between separators of two characters. -/
theorem resolve_build_appList_as_birth :
    let o : Options := { separator := "::", birthSuffix := "MQTT::UP::", lifecycleQos := 2 }
    let clock : Clock := ⟨⟨0, 0, by decide, by decide, by decide⟩, 5⟩
    let m := build clock o {} ["CONF-V1"] .appList
    o.validate = .ok () ∧ NamesTopic o (CertificateKind.appList.suffix o) ∧
    m.destination.resolve o = .ok "$EDC::#account-name::#client-id::MQTT::UP::" ∧
    m.qos.level = 2 := by
  intro o clock m
  have hvalid : o.validate = .ok () := by decide
  have hcut : Levels.cut o.separator (CertificateKind.appList.suffix o) =
      some ("MQTT", "UP::") := by decide
  have hnames : NamesTopic o (CertificateKind.appList.suffix o) := by
    intro app topic h
    rw [hcut] at h
    obtain ⟨rfl, rfl⟩ := Prod.mk.inj (Option.some.inj h)
    exact ⟨by decide, by decide⟩
  have hgoes := resolve_build_iff_namesTopic hvalid clock {} ["CONF-V1"] .appList
  have htopic : placed o (CertificateKind.appList.suffix o) =
      "$EDC::#account-name::#client-id::MQTT::UP::" := by decide
  exact ⟨hvalid, hnames, htopic ▸ hgoes.1.2 hnames, hgoes.2.2.2.2.2⟩

/-- Options are accepted with which a certificate has nowhere to go, and with which it goes to a
topic that does not end in its suffix. -/
theorem not_resolve_build :
    let clock : Clock := ⟨⟨0, 0, by decide, by decide, by decide⟩, 5⟩
    (let o : Options := { disconnectSuffix := "/MQTT/DC" }
    o.validate = .ok () ∧
      (build clock o {} [] .disconnect).destination.resolve o = .error .emptyApp) ∧
    (let o : Options := { disconnectSuffix := "MQTT/" }
    o.validate = .ok () ∧ placed o o.disconnectSuffix = "$EDC/#account-name/#client-id/MQTT/" ∧
      (build clock o {} [] .disconnect).destination.resolve o =
        .ok "$EDC/#account-name/#client-id/MQTT") := by
  decide

end Uplink.Certificate
