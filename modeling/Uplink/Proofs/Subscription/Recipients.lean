import Mathlib.Data.List.Induction
import Mathlib.Data.List.Nodup
import Mathlib.Data.List.Perm.Basic
import Uplink.Subscription

/-!
# Whom a message is for

A message is for all who share a record that covers its topic. Whoever shares several of them gets
it once, at the place of the first. The two rules leave no choice: there is exactly one such list,
and it is that of the recipients.
-/

namespace Uplink.Subscriptions

variable {σ : Type} [DecidableEq σ]

/-! ## 1. The audience of a topic -/

/-- A subscriber shares a record that covers a topic. -/
def Shares (o : Options) (topic : String) (subs : Subscriptions σ) (s : σ) : Prop :=
  ∃ e ∈ subs, e.1.covers o topic = true ∧ s ∈ e.2

/-- Where a subscriber stands: at the first record that covers the topic and has it, and there at
its place among those who share the record. -/
def place (o : Options) (topic : String) (subs : Subscriptions σ) (s : σ) : Nat × Nat :=
  let i := subs.findIdx fun e => e.1.covers o topic && decide (s ∈ e.2)
  (i, (subs[i]?.elim [] (·.2)).idxOf s)

/-- A place is before another one: at an earlier record, or earlier at the same one. -/
def IsBefore (p q : Nat × Nat) : Prop := p.1 < q.1 ∨ p.1 = q.1 ∧ p.2 < q.2

/-- A list names those whom a message on a topic is for, in the order of their places. -/
structure IsAudience (o : Options) (topic : String) (subs : Subscriptions σ) (names : List σ) :
    Prop where
  mem_iff (s : σ) : s ∈ names ↔ Shares o topic subs s
  inOrder : names.Pairwise fun a b => IsBefore (place o topic subs a) (place o topic subs b)

variable {o : Options} {topic : String} {subs : Subscriptions σ} {names : List σ}

theorem IsAudience.nodup (h : IsAudience o topic subs names) : names.Nodup := by
  refine h.inOrder.imp fun {a b} hbefore heq => ?_
  rw [heq, IsBefore] at hbefore
  omega

theorem IsAudience.unique {others : List σ} (h : IsAudience o topic subs names)
    (h' : IsAudience o topic subs others) : names = others := by
  have hperm : names.Perm others :=
    (List.perm_ext_iff_of_nodup h.nodup h'.nodup).2 fun s => (h.mem_iff s).trans (h'.mem_iff s).symm
  refine hperm.eq_of_pairwise (fun a b _ _ hab hba => ?_) h.inOrder h'.inOrder
  rw [IsBefore] at hab hba
  omega

/-! ## 2. Adding those who are new -/

/-- Those who are added to a list are the ones that it does not have, in the order in which they
first come. -/
theorem foldl_addNew (list found : List σ) :
    ∃ new, list.foldl (fun found s => addNew s found) found = found ++ new ∧
      (∀ s, s ∈ new ↔ s ∈ list ∧ s ∉ found) ∧
      new.Pairwise fun a b => list.idxOf a < list.idxOf b := by
  -- From the end, since the last element of the list is looked at last.
  induction list using List.reverseRecOn with
  | nil => exact ⟨[], by simp⟩
  | append_singleton list a ih =>
    obtain ⟨new, hnew, hmem, hpairwise⟩ := ih
    have hkept : new.Pairwise fun x y => (list ++ [a]).idxOf x < (list ++ [a]).idxOf y := by
      refine hpairwise.imp_of_mem fun {x y} hx hy hlt => ?_
      rwa [List.idxOf_append_of_mem ((hmem x).1 hx).1, List.idxOf_append_of_mem ((hmem y).1 hy).1]
    rw [List.foldl_append, List.foldl_cons, List.foldl_nil, hnew, addNew]
    by_cases ha : a ∈ found ++ new
    · refine ⟨new, if_pos ha, fun s => ?_, hkept⟩
      rw [hmem, List.mem_append, List.mem_singleton]
      rw [List.mem_append, hmem] at ha
      constructor
      · rintro ⟨hs, hfound⟩
        exact ⟨.inl hs, hfound⟩
      · rintro ⟨hs | rfl, hfound⟩
        · exact ⟨hs, hfound⟩
        · exact ha.resolve_left hfound
    · obtain ⟨hfound, hne⟩ := not_or.1 (mt List.mem_append.2 ha)
      have hlist : a ∉ list := fun hmemList => hne ((hmem a).2 ⟨hmemList, hfound⟩)
      refine ⟨new ++ [a], by rw [if_neg ha, List.append_assoc], fun s => ?_, ?_⟩
      · rw [List.mem_append, List.mem_append, List.mem_singleton, hmem, or_and_right]
        refine or_congr_right (iff_self_and.2 ?_)
        rintro rfl
        exact hfound
      · refine List.pairwise_append.2 ⟨hkept, List.pairwise_singleton .., fun x hx y hy => ?_⟩
        have hx := ((hmem x).1 hx).1
        rw [List.mem_singleton.1 hy, List.idxOf_append_of_mem hx, List.idxOf_append_of_notMem hlist]
        exact Nat.lt_add_right _ (List.idxOf_lt_length_iff.2 hx)

/-! ## 3. Record by record -/

/-- A record that is added last gives those their places who have none before. -/
theorem recipients_concat (o : Options) (topic : String) (subs : Subscriptions σ)
    (e : SubscriptionRecord × List σ) :
    recipients o topic (subs ++ [e]) =
      if e.1.covers o topic then
        e.2.foldl (fun found s => addNew s found) (recipients o topic subs)
      else recipients o topic subs := by
  rw [recipients, List.filter_append, List.flatMap_append, List.foldl_append]
  by_cases h : e.1.covers o topic <;> simp [h, recipients]

omit [DecidableEq σ] in
theorem shares_concat {e : SubscriptionRecord × List σ} {s : σ} :
    Shares o topic (subs ++ [e]) s ↔
      Shares o topic subs s ∨ e.1.covers o topic = true ∧ s ∈ e.2 := by
  simp only [Shares, List.mem_append, List.mem_singleton, or_and_right, exists_or,
    exists_eq_left]

theorem findIdx_lt_iff {s : σ} :
    (subs.findIdx fun e => e.1.covers o topic && decide (s ∈ e.2)) < subs.length ↔
      Shares o topic subs s := by
  rw [List.findIdx_lt_length, Shares]
  simp only [Bool.and_eq_true, decide_eq_true_eq]

theorem Shares.place_concat {s : σ} (h : Shares o topic subs s)
    (e : SubscriptionRecord × List σ) : place o topic (subs ++ [e]) s = place o topic subs s := by
  have hlt := findIdx_lt_iff.2 h
  rw [place, place, List.findIdx_append, if_pos hlt, List.getElem?_append_left hlt]

theorem place_concat_of_not_shares {s : σ} (h : ¬Shares o topic subs s)
    {e : SubscriptionRecord × List σ} (hcovers : e.1.covers o topic = true) (hs : s ∈ e.2) :
    place o topic (subs ++ [e]) s = (subs.length, e.2.idxOf s) := by
  have hfirst : ([e].findIdx fun e => e.1.covers o topic && decide (s ∈ e.2)) = 0 := by
    simp [List.findIdx_cons, hcovers, hs]
  rw [place, List.findIdx_append, if_neg (mt findIdx_lt_iff.1 h), hfirst, Nat.zero_add,
    List.getElem?_concat_length]
  rfl

theorem isAudience_recipients (o : Options) (topic : String) (subs : Subscriptions σ) :
    IsAudience o topic subs (recipients o topic subs) := by
  induction subs using List.reverseRecOn with
  | nil => exact ⟨by simp [recipients, Shares], by simp [recipients]⟩
  | append_singleton subs e ih =>
    have hkept : (recipients o topic subs).Pairwise fun a b =>
        IsBefore (place o topic (subs ++ [e]) a) (place o topic (subs ++ [e]) b) := by
      refine ih.inOrder.imp_of_mem fun {a b} ha hb hbefore => ?_
      rwa [((ih.mem_iff a).1 ha).place_concat, ((ih.mem_iff b).1 hb).place_concat]
    rw [recipients_concat]
    by_cases hcovers : e.1.covers o topic = true
    · obtain ⟨new, hnew, hmem, hpairwise⟩ := foldl_addNew e.2 (recipients o topic subs)
      have hplace : ∀ s ∈ new, place o topic (subs ++ [e]) s = (subs.length, e.2.idxOf s) := by
        intro s hs
        obtain ⟨hs, hold⟩ := (hmem s).1 hs
        exact place_concat_of_not_shares (mt (ih.mem_iff s).2 hold) hcovers hs
      rw [if_pos hcovers, hnew]
      refine ⟨fun s => ?_, List.pairwise_append.2 ⟨hkept, ?_, fun a ha b hb => ?_⟩⟩
      · rw [List.mem_append, hmem, shares_concat, ih.mem_iff]
        simp only [hcovers, true_and]
        tauto
      · refine hpairwise.imp_of_mem fun {a b} ha hb hlt => ?_
        rw [hplace a ha, hplace b hb]
        exact .inr ⟨rfl, hlt⟩
      · -- Those who were found at a record before come before all that only the last one has.
        have hshares := (ih.mem_iff a).1 ha
        rw [hshares.place_concat, hplace b hb]
        exact .inl (findIdx_lt_iff.2 hshares)
    · rw [if_neg hcovers]
      exact ⟨fun s => by simp [ih.mem_iff, shares_concat, hcovers], hkept⟩

/-- **The recipients of a message are those whom it is for, each once and in their order.** -/
theorem isAudience_iff : IsAudience o topic subs names ↔ names = recipients o topic subs :=
  ⟨fun h => h.unique (isAudience_recipients o topic subs),
    fun h => h ▸ isAudience_recipients o topic subs⟩

example : recipients {} "a/b" [(⟨"a/+/c", .atMostOnce⟩, ["w"]), (⟨"a/#", .atLeastOnce⟩, ["x", "y"]),
    (⟨"+/b", .atLeastOnce⟩, ["z", "x"])] = ["x", "y", "z"] := by
  decide

end Uplink.Subscriptions
