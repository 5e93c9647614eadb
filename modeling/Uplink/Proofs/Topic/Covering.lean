import Uplink.Filter

/-!
# What filters cover

A filter is compared with a topic level by level. Without a wildcard the two have as many levels,
and each level of the filter stands for the level at its place. A wildcard covers whatever follows,
the end of the topic included, but only as the last level: anywhere else it covers nothing.
-/

namespace Uplink.Filter

/-- The first levels of a filter stand for those of a topic: at each place there is the level that
stands for any one, or the same level. -/
def StandFor (n : Nat) (fs ts : List String) : Prop :=
  ∀ i < n, fs[i]? = some anyLevel ∨ fs[i]? = ts[i]?

theorem standFor_zero (fs ts : List String) : StandFor 0 fs ts := by
  intro i hi
  omega

theorem standFor_succ (n : Nat) (f t : String) (fs ts : List String) :
    StandFor (n + 1) (f :: fs) (t :: ts) ↔ (f = anyLevel ∨ f = t) ∧ StandFor n fs ts := by
  constructor
  · intro h
    refine ⟨by simpa using h 0 (by omega), fun i hi => ?_⟩
    simpa using h (i + 1) (by omega)
  · rintro ⟨hfirst, hrest⟩ i hi
    cases i with
    | zero => simpa using hfirst
    | succ i => simpa using hrest i (by omega)

/-- The wildcard that comes first in a list is its last level. -/
def EndsWith (wildcard : String) (fs : List String) : Prop := fs.idxOf wildcard + 1 = fs.length

theorem endsWith_cons_self (wildcard : String) (fs : List String) :
    EndsWith wildcard (wildcard :: fs) ↔ fs = [] := by
  rw [EndsWith, List.idxOf_cons_self, List.length_cons]
  cases fs <;> simp

theorem endsWith_cons_of_ne {wildcard f : String} (h : f ≠ wildcard) (fs : List String) :
    EndsWith wildcard (f :: fs) ↔ EndsWith wildcard fs := by
  have hidx : (f :: fs).idxOf wildcard = fs.idxOf wildcard + 1 := by
    rw [List.idxOf_cons, beq_false_of_ne h, cond_false]
  rw [EndsWith, hidx, List.length_cons, EndsWith]
  omega

/-- Levels cover others without a wildcard, or up to the one with which they end. -/
theorem covers_iff (wildcard : String) (fs ts : List String) :
    covers wildcard fs ts = true ↔
      (wildcard ∉ fs ∧ fs.length = ts.length ∧ StandFor fs.length fs ts) ∨
        (EndsWith wildcard fs ∧ fs.length - 1 ≤ ts.length ∧ StandFor (fs.length - 1) fs ts) := by
  induction fs generalizing ts with
  | nil =>
    have hnever : ¬EndsWith wildcard [] := by simp [EndsWith]
    cases ts with
    | nil => simp [covers, standFor_zero]
    | cons t ts => simp [covers, hnever]
  | cons f fs ih =>
    by_cases hf : f = wildcard
    · -- From here on the wildcard decides, whatever is left of the topic.
      subst hf
      have hcovers : covers f (f :: fs) ts = fs.isEmpty := by cases ts <;> simp [covers]
      rw [hcovers, endsWith_cons_self, List.isEmpty_iff]
      constructor
      · rintro rfl
        exact .inr ⟨rfl, Nat.zero_le _, standFor_zero _ _⟩
      · rintro (⟨hnot, -⟩ | ⟨hnil, -⟩)
        · exact absurd List.mem_cons_self hnot
        · exact hnil
    · have hmem : wildcard ∉ f :: fs ↔ wildcard ∉ fs := by simp [Ne.symm hf]
      rw [hmem, endsWith_cons_of_ne hf]
      cases ts with
      | nil =>
        -- A level that is no wildcard needs a level of the topic.
        have hlength : EndsWith wildcard fs → 1 ≤ fs.length := by
          intro h
          rw [EndsWith] at h
          omega
        have hnone : covers wildcard (f :: fs) [] = false := by simp [covers, hf]
        rw [hnone]
        simp only [List.length_cons, List.length_nil, Bool.false_eq_true, false_iff]
        rintro (⟨-, hlen, -⟩ | ⟨hends, hlen, -⟩)
        · omega
        · have := hlength hends
          omega
      | cons t ts =>
        have hcovers : covers wildcard (f :: fs) (t :: ts) = true ↔
            (f = anyLevel ∨ f = t) ∧ covers wildcard fs ts = true := by
          rw [covers, if_neg (by simpa using hf)]
          simp
        rw [hcovers, ih ts]
        simp only [List.length_cons, Nat.add_right_cancel_iff, Nat.add_sub_cancel, standFor_succ]
        by_cases hends : EndsWith wildcard fs
        · -- The wildcard is one of the levels, so that this is about those in front of it.
          obtain ⟨n, hn⟩ : ∃ n, fs.length = n + 1 := ⟨_, hends.symm⟩
          have hin : wildcard ∈ fs := List.idxOf_lt_length_iff.1 (by rw [EndsWith] at hends; omega)
          simp only [hn, hin, hends, not_true, false_and, false_or, true_and, standFor_succ,
            Nat.add_sub_cancel, Nat.add_le_add_iff_right]
          exact and_left_comm
        · simp only [hends, false_and, or_false]
          rw [and_left_comm, and_left_comm (a := f = anyLevel ∨ f = t)]

/-- **A filter covers a topic without a wildcard, level by level, or up to the wildcard with which it
ends.** -/
theorem matchesTopic_iff (o : Options) (filter topic : String) :
    let fs := Levels.split o.separator filter
    let ts := Levels.split o.separator topic
    matchesTopic o filter topic = true ↔
      (o.wildcard ∉ fs ∧ fs.length = ts.length ∧ StandFor fs.length fs ts) ∨
        (EndsWith o.wildcard fs ∧ fs.length - 1 ≤ ts.length ∧ StandFor (fs.length - 1) fs ts) :=
  covers_iff o.wildcard _ _

end Uplink.Filter
