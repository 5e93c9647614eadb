import Mathlib.Data.List.Induction
import Mathlib.Data.List.Nodup
import Uplink.Subscription

/-!
# What a registry of subscribers holds

Subscribers are added to records and taken from all of them. A record is there as long as somebody
shares it: it comes with its first subscriber and goes with its last, and what is told about that is
all that happens.
-/

namespace Uplink.Subscriptions

variable {σ : Type} [DecidableEq σ]

/-! ## 1. Who shares what -/

def Lists (subs : Subscriptions σ) (r : SubscriptionRecord) (s : σ) : Prop :=
  ∃ e ∈ subs, e.1 = r ∧ s ∈ e.2

/-- Records are there once, each with at least one subscriber and with none twice. -/
structure IsTidy (subs : Subscriptions σ) : Prop where
  records : subs.records.Nodup
  subscribers : ∀ e ∈ subs, e.2 ≠ [] ∧ e.2.Nodup

variable {subs : Subscriptions σ} {r : SubscriptionRecord} {s : σ}

omit [DecidableEq σ] in
theorem IsTidy.mem_records_iff (h : IsTidy subs) : r ∈ subs.records ↔ ∃ s, subs.Lists r s := by
  constructor
  · intro hr
    obtain ⟨e, he, rfl⟩ := List.mem_map.1 hr
    obtain ⟨s, hs⟩ := List.exists_mem_of_ne_nil _ (h.subscribers e he).1
    exact ⟨s, e, he, rfl, hs⟩
  · rintro ⟨s, e, he, rfl, -⟩
    exact List.mem_map_of_mem he

omit [DecidableEq σ] in
theorem IsTidy.lists_iff (h : IsTidy subs) {e : SubscriptionRecord × List σ} (he : e ∈ subs) :
    subs.Lists e.1 s ↔ s ∈ e.2 := by
  constructor
  · rintro ⟨e', he', hsame, hs⟩
    rwa [← List.inj_on_of_nodup_map h.records he' he hsame]
  · exact fun hs => ⟨e, he, rfl, hs⟩

omit [DecidableEq σ] in
theorem IsTidy.count_eq (h : IsTidy subs) (r : SubscriptionRecord) :
    ∃ sharers : List σ, sharers.Nodup ∧ (∀ s, s ∈ sharers ↔ subs.Lists r s) ∧
      count r subs = sharers.length := by
  rw [count]
  cases hfind : subs.find? fun e => e.1 == r with
  | none =>
    refine ⟨[], List.nodup_nil, fun s => iff_of_false List.not_mem_nil ?_, rfl⟩
    rintro ⟨e, he, rfl, -⟩
    exact List.find?_eq_none.1 hfind e he (beq_self_eq_true _)
  | some e =>
    have he := List.mem_of_find?_eq_some hfind
    have hsame := List.find?_some hfind
    obtain rfl : e.1 = r := eq_of_beq hsame
    exact ⟨e.2, (h.subscribers e he).2, fun s => (h.lists_iff he).symm, rfl⟩

/-! ## 2. Adding a subscriber -/

theorem mem_addNew {s s' : σ} {list : List σ} : s' ∈ addNew s list ↔ s' = s ∨ s' ∈ list := by
  rw [addNew]
  split
  · next hs =>
    constructor
    · exact .inr
    · rintro (rfl | hs')
      · exact hs
      · exact hs'
  · rw [List.mem_append, List.mem_singleton, or_comm]

theorem nodup_addNew {s : σ} {list : List σ} (h : list.Nodup) : (addNew s list).Nodup := by
  rw [addNew]
  split
  · exact h
  · next hs => exact List.nodup_append.2 ⟨h, List.nodup_singleton s, by grind⟩

omit [DecidableEq σ] in
theorem contains_iff : contains r subs = true ↔ r ∈ subs.records := by
  rw [contains, List.any_eq_true, records, List.mem_map]
  simp only [beq_iff_eq]

/-- What becomes of an entry when a subscriber is added to a record that is there. -/
def joined (r : SubscriptionRecord) (s : σ) (e : SubscriptionRecord × List σ) :
    SubscriptionRecord × List σ :=
  if e.1 = r then (e.1, addNew s e.2) else e

theorem joined_fst (r : SubscriptionRecord) (s : σ) (e : SubscriptionRecord × List σ) :
    (joined r s e).1 = e.1 := by
  rw [joined]
  split <;> rfl

theorem mem_joined_snd {r : SubscriptionRecord} {s s' : σ} {e : SubscriptionRecord × List σ} :
    s' ∈ (joined r s e).2 ↔ e.1 = r ∧ s' = s ∨ s' ∈ e.2 := by
  rw [joined]
  split
  · next h => rw [mem_addNew, and_iff_right h]
  · next h => rw [or_iff_right fun hand => h hand.1]

theorem add_eq (r : SubscriptionRecord) (s : σ) (subs : Subscriptions σ) :
    add r s subs = if r ∈ subs.records then (false, subs.map (joined r s))
      else (true, subs ++ [(r, [s])]) := by
  rw [add]
  simp only [contains_iff]
  rfl

theorem add_fst_iff : (add r s subs).1 = true ↔ r ∉ subs.records := by
  rw [add_eq]
  split
  · next h => exact iff_of_false Bool.false_ne_true (not_not_intro h)
  · next h => exact iff_of_true rfl h

/-- A subscriber adds its record if there is no such record yet. -/
theorem records_add (r : SubscriptionRecord) (s : σ) (subs : Subscriptions σ) :
    (add r s subs).2.records = if (add r s subs).1 then subs.records ++ [r] else subs.records := by
  rw [add_eq]
  split
  · rw [records, List.map_map]
    exact List.map_congr_left fun e _ => joined_fst r s e
  · exact List.map_append

theorem lists_add {r' : SubscriptionRecord} {s' : σ} :
    (add r s subs).2.Lists r' s' ↔ (r' = r ∧ s' = s) ∨ subs.Lists r' s' := by
  rw [add_eq]
  split
  · next hr =>
    constructor
    · rintro ⟨e', he', rfl, hs'⟩
      obtain ⟨e, he, rfl⟩ := List.mem_map.1 he'
      rw [joined_fst]
      rcases mem_joined_snd.1 hs' with hnew | hold
      · exact .inl hnew
      · exact .inr ⟨e, he, rfl, hold⟩
    · rintro (⟨rfl, rfl⟩ | ⟨e, he, rfl, hs'⟩)
      · obtain ⟨e, he, hsame⟩ := List.mem_map.1 hr
        exact ⟨_, List.mem_map_of_mem he, (joined_fst _ _ e).trans hsame,
          mem_joined_snd.2 (.inl ⟨hsame, rfl⟩)⟩
      · exact ⟨_, List.mem_map_of_mem he, joined_fst _ _ e, mem_joined_snd.2 (.inr hs')⟩
  · constructor
    · rintro ⟨e, he, rfl, hs'⟩
      rcases List.mem_append.1 he with he | he
      · exact .inr ⟨e, he, rfl, hs'⟩
      · rw [List.mem_singleton.1 he] at hs' ⊢
        exact .inl ⟨rfl, List.mem_singleton.1 hs'⟩
    · rintro (⟨rfl, rfl⟩ | ⟨e, he, rfl, hs'⟩)
      · exact ⟨_, List.mem_append_right _ (List.mem_singleton_self _), rfl,
          List.mem_singleton_self _⟩
      · exact ⟨e, List.mem_append_left _ he, rfl, hs'⟩

theorem IsTidy.add (h : IsTidy subs) (r : SubscriptionRecord) (s : σ) :
    IsTidy (add r s subs).2 := by
  constructor
  · rw [records_add]
    split
    · next hnew =>
      have hr : r ∉ subs.records := add_fst_iff.1 hnew
      exact List.nodup_append.2 ⟨h.records, List.nodup_singleton r, by grind⟩
    · exact h.records
  · rw [add_eq]
    split
    · intro e' he'
      obtain ⟨e, he, rfl⟩ := List.mem_map.1 he'
      obtain ⟨hne, hnodup⟩ := h.subscribers e he
      rw [joined]
      split
      · refine ⟨?_, nodup_addNew hnodup⟩
        exact List.ne_nil_of_mem (mem_addNew.2 (.inl rfl))
      · exact ⟨hne, hnodup⟩
    · intro e he
      rcases List.mem_append.1 he with he | he
      · exact h.subscribers e he
      · rw [List.mem_singleton.1 he]
        exact ⟨List.cons_ne_nil _ _, List.nodup_singleton s⟩

/-! ## 3. Taking a subscriber away -/

theorem lists_remove {s' : σ} : (remove s subs).2.Lists r s' ↔ subs.Lists r s' ∧ s' ≠ s := by
  constructor
  · rintro ⟨e', he', rfl, hs'⟩
    obtain ⟨e, he, rfl⟩ := List.mem_map.1 (List.mem_filter.1 he').1
    obtain ⟨hs', hne⟩ := List.mem_filter.1 hs'
    exact ⟨⟨e, he, rfl, hs'⟩, bne_iff_ne.1 hne⟩
  · rintro ⟨⟨e, he, rfl, hs'⟩, hne⟩
    have hkept : s' ∈ e.2.filter (· != s) := List.mem_filter.2 ⟨hs', bne_iff_ne.2 hne⟩
    refine ⟨_, List.mem_filter.2 ⟨List.mem_map_of_mem he, ?_⟩, rfl, hkept⟩
    rw [Bool.not_eq_true', List.isEmpty_eq_false_iff]
    exact List.ne_nil_of_mem hkept

theorem records_remove_sublist (s : σ) (subs : Subscriptions σ) :
    (remove s subs).2.records.Sublist subs.records := by
  have hsame : records (subs.map fun e => (e.1, e.2.filter (· != s))) = subs.records := by
    rw [records, List.map_map]
    rfl
  rw [← hsame]
  exact List.filter_sublist.map _

theorem mem_records_of_remove (h : r ∈ (remove s subs).2.records) : r ∈ subs.records :=
  (records_remove_sublist s subs).mem h

theorem IsTidy.remove (h : IsTidy subs) (s : σ) : IsTidy (remove s subs).2 := by
  refine ⟨h.records.sublist (records_remove_sublist s subs), fun e' he' => ?_⟩
  obtain ⟨he', hne⟩ := List.mem_filter.1 he'
  obtain ⟨e, he, rfl⟩ := List.mem_map.1 he'
  rw [Bool.not_eq_true', List.isEmpty_eq_false_iff] at hne
  exact ⟨hne, (h.subscribers e he).2.filter _⟩

/-- The records that are told to be gone are those that are not there any more. -/
theorem IsTidy.removed_eq_filter (h : IsTidy subs) (s : σ) :
    (Subscriptions.remove s subs).1 =
      subs.records.filter (· ∉ (Subscriptions.remove s subs).2.records) := by
  have hempty (e : SubscriptionRecord × List σ) (he : e ∈ subs) :
      (e.2.filter (· != s)).isEmpty =
        decide (e.1 ∉ (Subscriptions.remove s subs).2.records) := by
    rw [Bool.eq_iff_iff, List.isEmpty_iff, List.filter_eq_nil_iff, decide_eq_true_eq,
      (h.remove s).mem_records_iff, not_exists]
    simp only [lists_remove, h.lists_iff he, bne_iff_ne, not_and]
  show ((subs.map fun e => (e.1, e.2.filter (· != s))).filter fun e => e.2.isEmpty).map _ =
    (subs.map (·.1)).filter _
  rw [List.filter_map, List.filter_map, List.map_map]
  exact congrArg (List.map (·.1)) (List.filter_congr hempty)

/-- A record is told to be gone if nobody else shares it. -/
theorem IsTidy.mem_removed_iff (h : IsTidy subs) :
    r ∈ (Subscriptions.remove s subs).1 ↔ ∀ s', subs.Lists r s' ↔ s' = s := by
  rw [h.removed_eq_filter, List.mem_filter, decide_eq_true_eq, h.mem_records_iff,
    (h.remove s).mem_records_iff, not_exists]
  simp only [lists_remove, not_and_not_right]
  constructor
  · rintro ⟨⟨s', hs'⟩, honly⟩ t
    refine ⟨honly t, ?_⟩
    rintro rfl
    rwa [← honly s' hs']
  · exact fun hiff => ⟨⟨s, (hiff s).2 rfl⟩, fun s' => (hiff s').1⟩

/-! ## 4. What has been added and taken away -/

/-- What is done to a registry. -/
inductive Change (σ : Type) where
  | add (r : SubscriptionRecord) (s : σ)
  | remove (s : σ)

def Change.apply : Change σ → Subscriptions σ → Subscriptions σ
  | .add r s, subs => (subs.add r s).2
  | .remove s, subs => (subs.remove s).2

def ofChanges (changes : List (Change σ)) : Subscriptions σ :=
  changes.foldl (fun subs change => change.apply subs) []

/-- A subscriber was added to a record and not taken away since. -/
def Holds (changes : List (Change σ)) (r : SubscriptionRecord) (s : σ) : Prop :=
  ∃ before after, changes = before ++ .add r s :: after ∧ .remove s ∉ after

def IsShared (changes : List (Change σ)) (r : SubscriptionRecord) : Prop := ∃ s, Holds changes r s

/-- A record was shared at a time at which another one was not, and has been ever since. -/
def IsOlder (changes : List (Change σ)) (r r' : SubscriptionRecord) : Prop :=
  ∃ before after, changes = before ++ after ∧ ¬IsShared before r' ∧
    ∀ more, more <+: after → IsShared (before ++ more) r

/-- A registry holds what was added and not taken away, in the order in which records came. -/
structure Reflects (changes : List (Change σ)) (subs : Subscriptions σ) : Prop where
  isTidy : IsTidy subs
  lists_iff (r : SubscriptionRecord) (s : σ) : subs.Lists r s ↔ Holds changes r s
  order : subs.records.Pairwise (IsOlder changes)

/-- What it tells when a subscriber is added or taken away is what becomes of the records. -/
structure Tells (changes : List (Change σ)) (subs : Subscriptions σ) : Prop
    extends Reflects changes subs where
  contains_iff (r : SubscriptionRecord) : contains r subs = true ↔ IsShared changes r
  isNew_iff (r : SubscriptionRecord) (s : σ) : (add r s subs).1 = true ↔ ¬IsShared changes r
  mem_gone_iff (r : SubscriptionRecord) (s : σ) :
    r ∈ (remove s subs).1 ↔ ∀ s', Holds changes r s' ↔ s' = s
  gone_order (s : σ) : (remove s subs).1.Nodup ∧ (remove s subs).1.Pairwise (IsOlder changes)
  count_eq (r : SubscriptionRecord) :
    ∃ sharers : List σ, sharers.Nodup ∧ (∀ s, s ∈ sharers ↔ Holds changes r s) ∧
      count r subs = sharers.length

variable {changes : List (Change σ)} {change : Change σ}

omit [DecidableEq σ] in
theorem holds_concat :
    Holds (changes ++ [change]) r s ↔
      change = .add r s ∨ Holds changes r s ∧ change ≠ .remove s := by
  constructor
  · -- Either the last change added the subscriber, or an earlier one did.
    rintro ⟨before, after, h, hnone⟩
    rcases List.eq_nil_or_concat' after with rfl | ⟨after, last, rfl⟩
    · exact .inl (List.append_singleton_inj.1 h).2
    · rw [← List.cons_append, ← List.append_assoc, List.append_singleton_inj] at h
      obtain ⟨rfl, rfl⟩ := h
      rw [List.mem_append, List.mem_singleton, not_or] at hnone
      exact .inr ⟨⟨before, after, rfl, hnone.1⟩, Ne.symm hnone.2⟩
  · rintro (rfl | ⟨⟨before, after, rfl, hnone⟩, hne⟩)
    · exact ⟨changes, [], rfl, List.not_mem_nil⟩
    · refine ⟨before, after ++ [change], by simp, ?_⟩
      rw [List.mem_append, List.mem_singleton, not_or]
      exact ⟨hnone, Ne.symm hne⟩

theorem lists_apply :
    (change.apply subs).Lists r s ↔ change = .add r s ∨ subs.Lists r s ∧ change ≠ .remove s := by
  cases change with
  | add r' s' =>
    rw [Change.apply, lists_add, Change.add.injEq, eq_comm, eq_comm (a := s)]
    simp
  | remove s' =>
    rw [Change.apply, lists_remove, ne_eq, ne_eq, Change.remove.injEq, eq_comm]
    simp

theorem IsTidy.apply (h : IsTidy subs) (change : Change σ) : IsTidy (change.apply subs) := by
  cases change with
  | add r s => exact h.add r s
  | remove s => exact h.remove s

omit [DecidableEq σ] in
/-- A record stays older than another one as long as it is there. -/
theorem IsOlder.concat {r' : SubscriptionRecord} (h : IsOlder changes r r')
    (hshared : IsShared (changes ++ [change]) r) : IsOlder (changes ++ [change]) r r' := by
  obtain ⟨before, after, rfl, hnot, hsince⟩ := h
  refine ⟨before, after ++ [change], List.append_assoc .., hnot, fun more hmore => ?_⟩
  rcases List.prefix_concat_iff.1 hmore with rfl | hmore
  · rwa [← List.append_assoc]
  · exact hsince more hmore

omit [DecidableEq σ] in
/-- A record that comes is younger than those that are there. -/
theorem isOlder_concat_of_not_isShared {r' : SubscriptionRecord} (h : IsShared changes r)
    (hnot : ¬IsShared changes r') (hshared : IsShared (changes ++ [change]) r) :
    IsOlder (changes ++ [change]) r r' := by
  refine ⟨changes, [change], rfl, hnot, fun more hmore => ?_⟩
  rcases List.prefix_cons_iff.1 hmore with rfl | ⟨rest, rfl, hrest⟩
  · rwa [List.append_nil]
  · rwa [List.prefix_nil.1 hrest]

namespace Reflects

omit [DecidableEq σ] in
theorem isShared_iff (h : Reflects changes subs) : IsShared changes r ↔ r ∈ subs.records := by
  rw [h.isTidy.mem_records_iff]
  exact exists_congr fun s => (h.lists_iff r s).symm

theorem concat (h : Reflects changes subs) (change : Change σ) :
    Reflects (changes ++ [change]) (change.apply subs) := by
  have hlists (r : SubscriptionRecord) (s : σ) :
      (change.apply subs).Lists r s ↔ Holds (changes ++ [change]) r s := by
    rw [lists_apply, holds_concat, h.lists_iff]
  have htidy := h.isTidy.apply change
  have hshared {r : SubscriptionRecord} (hr : r ∈ (change.apply subs).records) :
      IsShared (changes ++ [change]) r := by
    obtain ⟨s, hs⟩ := htidy.mem_records_iff.1 hr
    exact ⟨s, (hlists r s).1 hs⟩
  refine ⟨htidy, hlists, ?_⟩
  -- Records that stay keep their order, and a new one comes last.
  have hkept {list : List SubscriptionRecord} (hsub : list.Sublist subs.records)
      (hmem : ∀ r ∈ list, r ∈ (change.apply subs).records) :
      list.Pairwise (IsOlder (changes ++ [change])) :=
    (h.order.sublist hsub).imp_of_mem fun hr _ hold => hold.concat (hshared (hmem _ hr))
  cases change with
  | add r s =>
    have hmem (r' : SubscriptionRecord) (hr' : r' ∈ subs.records) :
        r' ∈ (Change.apply (.add r s) subs).records := by
      rw [Change.apply, records_add]
      split
      · exact List.mem_append_left _ hr'
      · exact hr'
    have hold := hkept (List.Sublist.refl _) hmem
    rw [Change.apply, records_add]
    split
    · next hnew =>
      have hnot : ¬IsShared changes r := mt h.isShared_iff.1 (add_fst_iff.1 hnew)
      refine List.pairwise_append.2 ⟨hold, List.pairwise_singleton _ r, fun r₀ hr₀ r' hr' => ?_⟩
      rw [List.mem_singleton.1 hr']
      exact isOlder_concat_of_not_isShared (h.isShared_iff.2 hr₀) hnot (hshared (hmem r₀ hr₀))
    · exact hold
  | remove s => exact hkept (records_remove_sublist s subs) fun r hr => hr

theorem tells (h : Reflects changes subs) : Tells changes subs where
  toReflects := h
  contains_iff r := by rw [Subscriptions.contains_iff, h.isShared_iff]
  isNew_iff r s := by rw [add_fst_iff, h.isShared_iff]
  mem_gone_iff r s := by simp only [h.isTidy.mem_removed_iff, h.lists_iff]
  gone_order s := by
    rw [h.isTidy.removed_eq_filter]
    exact ⟨h.isTidy.records.filter _, h.order.filter _⟩
  count_eq r := by simp only [← h.lists_iff, h.isTidy.count_eq]

end Reflects

theorem reflects_ofChanges (changes : List (Change σ)) : Reflects changes (ofChanges changes) := by
  induction changes using List.reverseRecOn with
  | nil =>
    refine ⟨⟨List.nodup_nil, fun e he => by cases he⟩, fun r s => ?_, List.Pairwise.nil⟩
    constructor
    · rintro ⟨e, he, -⟩
      cases he
    · rintro ⟨before, after, h, -⟩
      exact absurd h (by simp)
  | append_singleton changes change ih =>
    rw [ofChanges, List.foldl_append]
    exact ih.concat change

end Uplink.Subscriptions
