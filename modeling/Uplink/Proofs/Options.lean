import Uplink.Certificate

/-!
# Options that are in order

What the coordinator can rely on when options were accepted.
-/

namespace Uplink.Options

/-- No fault is found in the options. -/
structure InOrder (o : Options) : Prop where
  controlPrefix : o.controlPrefix ≠ ""
  separator : o.separator ≠ ""
  cut_controlPrefix : Levels.cut o.separator o.controlPrefix = none
  accountToken : o.accountToken ≠ ""
  clientToken : o.clientToken ≠ ""
  suffix : ∀ kind : CertificateKind, kind.suffix o ≠ ""
  dispatchWorkers : o.dispatchWorkers ≠ 0

theorem and_of_ite_eq_none {α : Type} {c : Prop} [Decidable c] {a : α} {rest : Option α}
    (h : (if c then some a else rest) = none) : ¬c ∧ rest = none := by
  split at h
  · cases h
  · next hc => exact ⟨hc, h⟩

theorem inOrder_of_fault? {o : Options} (h : o.fault? = none) : o.InOrder := by
  rw [fault?] at h
  -- The faults are looked for one after the other.
  obtain ⟨hcontrol, h⟩ := and_of_ite_eq_none h
  obtain ⟨hseparator, h⟩ := and_of_ite_eq_none h
  obtain ⟨hcut, h⟩ := and_of_ite_eq_none h
  obtain ⟨htokens, h⟩ := and_of_ite_eq_none h
  obtain ⟨-, h⟩ := and_of_ite_eq_none h
  obtain ⟨hbirth, h⟩ := and_of_ite_eq_none h
  obtain ⟨hdisconnect, h⟩ := and_of_ite_eq_none h
  obtain ⟨happList, h⟩ := and_of_ite_eq_none h
  obtain ⟨hworkers, -⟩ := and_of_ite_eq_none h
  rw [Bool.or_eq_true, not_or] at htokens
  refine ⟨mt String.isEmpty_iff.2 hcontrol, mt String.isEmpty_iff.2 hseparator, ?_,
    mt String.isEmpty_iff.2 htokens.1, mt String.isEmpty_iff.2 htokens.2, fun kind => ?_, hworkers⟩
  · rwa [Bool.not_eq_true, Option.isSome_eq_false_iff, Option.isNone_iff_eq_none] at hcut
  · cases kind with
    | birth => exact mt String.isEmpty_iff.2 hbirth
    | appList => exact mt String.isEmpty_iff.2 happList
    | disconnect => exact mt String.isEmpty_iff.2 hdisconnect

theorem fault?_of_validate {o : Options} (h : o.validate = .ok ()) : o.fault? = none := by
  rw [validate] at h
  split at h
  · cases h
  · next hfault => exact hfault

theorem inOrder_of_validate {o : Options} (h : o.validate = .ok ()) : o.InOrder :=
  inOrder_of_fault? (fault?_of_validate h)

/-- Accepted options have a guarantee with the number that they give. -/
theorem level_lifecycleGuarantee {o : Options} (h : o.validate = .ok ()) :
    o.lifecycleGuarantee.level = o.lifecycleQos := by
  have hfault := fault?_of_validate h
  rw [fault?] at hfault
  obtain ⟨-, hfault⟩ := and_of_ite_eq_none hfault
  obtain ⟨-, hfault⟩ := and_of_ite_eq_none hfault
  obtain ⟨-, hfault⟩ := and_of_ite_eq_none hfault
  obtain ⟨-, hfault⟩ := and_of_ite_eq_none hfault
  obtain ⟨hlevel, -⟩ := and_of_ite_eq_none hfault
  cases hqos : Qos.ofLevel? o.lifecycleQos with
  | none =>
    rw [hqos] at hlevel
    exact absurd rfl hlevel
  | some qos => rw [lifecycleGuarantee, hqos, Option.getD_some, Qos.level_of_ofLevel? hqos]

end Uplink.Options
