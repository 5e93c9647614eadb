import Uplink.Proofs.Topic.Reading
import Uplink.Request

/-!
# The parts of a topic are its levels

What is read of a topic makes up its text again, however many levels there are and wherever they are
empty; a topic that is too short is read as if empty levels followed. A request is about the levels
of the sub-topic between its method and its id, with one exception: an id that is empty takes the
place of the last of them.
-/

namespace Uplink

/-! ## 1. Several levels -/

/-- The first levels of a text, empty where they are missing, and what follows them. -/
def takeLevels (separator : String) : Nat → String → List String × String
  | 0, text => ([], text)
  | n + 1, text =>
    let (level, rest) := takeLevel separator text
    let (levels, rest) := takeLevels separator n rest
    (level.getD "" :: levels, rest)

/-- The first level of a text is all of it, or what stands before a separator. -/
theorem takeLevel_cases {sep : String} (hsep : sep ≠ "") (text : String) :
    (Levels.split sep text = [text] ∧ (takeLevel sep text).1.getD "" = text ∧
      (takeLevel sep text).2 = "") ∨
    ∃ level rest, takeLevel sep text = (some level, rest) ∧
      Levels.split sep text = level :: Levels.split sep rest ∧ level ++ (sep ++ rest) = text := by
  cases hcut : Levels.cut sep text with
  | none => exact .inl ⟨Levels.split_of_cut_eq_none hsep hcut, Topic.takeLevel_of_cut_eq_none hcut⟩
  | some parts =>
    obtain ⟨level, rest⟩ := parts
    have htext := Levels.append_of_cut hcut
    have hne : ¬text.isEmpty := fun hempty => by
      rw [String.isEmpty_iff.1 hempty] at htext
      simp [hsep] at htext
    refine .inr ⟨level, rest, ?_, Levels.split_of_cut_eq_some hsep hcut, htext⟩
    rw [takeLevel, if_neg hne, hcut]

theorem takeLevels_empty (sep : String) (n : Nat) :
    takeLevels sep n "" = (List.replicate n "", "") := by
  induction n with
  | zero => rfl
  | succ n ih =>
    show ("" :: (takeLevels sep n "").1, (takeLevels sep n "").2) = _
    rw [ih, List.replicate_succ]

theorem length_takeLevels (sep : String) (n : Nat) (text : String) :
    (takeLevels sep n text).1.length = n := by
  induction n generalizing text with
  | zero => rfl
  | succ n ih => exact congrArg (· + 1) (ih _)

/-- Where there are more levels than are taken, nothing is lost. -/
theorem takeLevels_of_lt {sep : String} (hsep : sep ≠ "") {n : Nat} {text : String}
    (h : n < (Levels.split sep text).length) :
    Levels.join sep ((takeLevels sep n text).1 ++ [(takeLevels sep n text).2]) = text := by
  induction n generalizing text with
  | zero => exact String.intercalate_singleton
  | succ n ih =>
    rcases takeLevel_cases hsep text with ⟨hsplit, -⟩ | ⟨level, rest, htake, hsplit, htext⟩
    · -- There is one level only, which is not more than are taken.
      rw [hsplit, List.length_singleton] at h
      omega
    · have hrest : n < (Levels.split sep rest).length := by
        rw [hsplit, List.length_cons] at h
        omega
      have hjoin := ih hrest
      rw [takeLevels, htake]
      show Levels.join sep (level :: ((takeLevels sep n rest).1 ++ _)) = _
      obtain ⟨next, levels, hlevels⟩ := List.exists_cons_of_ne_nil
        (l := (takeLevels sep n rest).1 ++ [(takeLevels sep n rest).2]) (by simp)
      rw [hlevels] at hjoin ⊢
      rw [Levels.join_cons_cons, hjoin, htext]

/-- Where there are no more levels than are taken, the others are empty. -/
theorem takeLevels_of_le {sep : String} (hsep : sep ≠ "") {n : Nat} {text : String}
    (h : (Levels.split sep text).length ≤ n) :
    takeLevels sep n text = (Levels.split sep text ++
      List.replicate (n - (Levels.split sep text).length) "", "") := by
  induction n generalizing text with
  | zero =>
    have hpos := List.length_pos_iff.2 (Levels.split_ne_nil sep text)
    omega
  | succ n ih =>
    rcases takeLevel_cases hsep text with ⟨hsplit, hlevel, hrest⟩ | ⟨level, rest, htake, hsplit, -⟩
    · show ((takeLevel sep text).1.getD "" :: (takeLevels sep n (takeLevel sep text).2).1,
        (takeLevels sep n (takeLevel sep text).2).2) = _
      rw [hlevel, hrest, takeLevels_empty, hsplit, List.length_singleton, Nat.add_sub_cancel]
      rfl
    · have hle : (Levels.split sep rest).length ≤ n := by
        rw [hsplit, List.length_cons] at h
        omega
      rw [takeLevels, htake]
      show (level :: (takeLevels sep n rest).1, (takeLevels sep n rest).2) = _
      rw [ih hle, hsplit, List.length_cons, Nat.add_sub_add_right]
      rfl

namespace Topic

/-! ## 2. Nothing is lost -/

def front (t : Topic) : List String := t.realm.toList ++ [t.account, t.client, t.app]

/-- The parts of a topic are taken off its front, one after the other. -/
theorem takeLevels_parse {o : Options} {text : String} (hsep : o.separator ≠ "") (htext : text ≠ "")
    (hwild : text ≠ o.wildcard) :
    takeLevels o.separator (realmLevels o text + 3) text =
      ((parse o text).front, (parse o text).subTopic) := by
  have hpair {α β : Type} (p : α × β) : p = (p.1, p.2) := rfl
  have hfirst := takeLevel_fst hsep htext
  rw [parse_of_takeLevel htext hwild (hpair _) (hpair _) (hpair _) (hpair _), realmLevels, front]
  cases hasRealm o text with
  | true =>
    -- The level in front is there, since the text is not empty.
    simp only [if_true, takeLevels, hfirst, Option.getD_some, Option.toList_some,
      List.singleton_append]
  | false =>
    simp only [Bool.false_eq_true, if_false, takeLevels, Option.toList_none, List.nil_append]

instance (o : Options) (level : String) : Decidable (IsRealm o level) :=
  inferInstanceAs (Decidable (_ ∨ _))

/-- How many parts of a topic stand in front of its sub-topic. -/
def frontLevels (o : Options) (text : String) : Nat :=
  if IsRealm o (Levels.nth o.separator text 0) then 4 else 3

theorem frontLevels_eq (o : Options) (text : String) :
    frontLevels o text = realmLevels o text + 3 := by
  have hrealm := hasRealm_iff o text
  unfold frontLevels realmLevels
  by_cases h : IsRealm o (Levels.nth o.separator text 0)
  · rw [if_pos h, if_pos (hrealm.2 h)]
  · rw [if_neg h, if_neg (mt hrealm.1 h)]

/-- **Reading a topic loses nothing.** -/
theorem parse_loses_nothing {o : Options} {text : String} (hsep : o.separator ≠ "")
    (htext : text ≠ "") (hwild : text ≠ o.wildcard) :
    let t := parse o text
    let levels := Levels.split o.separator text
    let k := frontLevels o text
    t.front.length = k ∧
    (k < levels.length → Levels.join o.separator (t.front ++ [t.subTopic]) = text) ∧
    (levels.length ≤ k →
      t.front = levels ++ List.replicate (k - levels.length) "" ∧ t.subTopic = "") := by
  intro t levels k
  have htake : takeLevels o.separator k text = (t.front, t.subTopic) := by
    rw [show k = realmLevels o text + 3 from frontLevels_eq o text]
    exact takeLevels_parse hsep htext hwild
  refine ⟨?_, fun hlt => ?_, fun hle => ?_⟩
  · have hlength := length_takeLevels o.separator k text
    rwa [htake] at hlength
  · have hjoin := takeLevels_of_lt hsep hlt
    rwa [htake] at hjoin
  · rw [takeLevels_of_le hsep hle, Prod.mk.injEq] at htake
    exact ⟨htake.1.symm, htake.2.symm⟩

/-- Levels may be empty, and a topic may end in separators. -/
theorem parse_loses_nothing_of_long_separator :
    let o : Options := { separator := "::" }
    let long := "$SYS::::gw-01::CONF::"
    let short := "::gw-01::"
    (o.separator ≠ "" ∧ (long ≠ "" ∧ long ≠ o.wildcard) ∧ short ≠ "" ∧ short ≠ o.wildcard) ∧
      (frontLevels o long < (Levels.split o.separator long).length ∧
        Levels.join o.separator ((parse o long).front ++ [(parse o long).subTopic]) = long ∧
        (parse o long).front = ["$SYS", "", "gw-01", "CONF"] ∧ (parse o long).subTopic = "") ∧
      (parse o short).front = ["", "gw-01", ""] ∧ (parse o short).subTopic = "" := by
  intro o long short
  have hsep : o.separator ≠ "" := by decide
  have hlong : long ≠ "" ∧ long ≠ o.wildcard := by decide
  have hshort : short ≠ "" ∧ short ≠ o.wildcard := by decide
  have hlt : frontLevels o long < (Levels.split o.separator long).length := by decide
  obtain ⟨-, hlossless, -⟩ := parse_loses_nothing hsep hlong.1 hlong.2
  obtain ⟨-, -, hpadded⟩ := parse_loses_nothing hsep hshort.1 hshort.2
  obtain ⟨hfront, hsub⟩ := hpadded (by decide)
  exact ⟨⟨hsep, hlong, hshort⟩, ⟨hlt, hlossless hlt, by decide, by decide⟩,
    hfront.trans (by decide), hsub⟩

/-! ## 3. What a request is about -/

/-- A request id of a topic is the last level of its sub-topic, behind its method. -/
theorem getLast?_of_requestId {o : Options} {text id : String}
    (h : (parse o text).requestId = some id) :
    2 ≤ ((parse o text).subLevels o).length ∧
      ((parse o text).subLevels o).getLast? = some id := by
  by_cases hparts : text.isEmpty ∨ text = o.wildcard
  · rw [parse, if_pos hparts] at h
    cases h
  · obtain ⟨htext, hwild⟩ := not_or.1 hparts
    rcases hrealm : (if hasRealm o text then takeLevel o.separator text else (none, text)) with
      ⟨realm, rest₀⟩
    rcases haccount : takeLevel o.separator rest₀ with ⟨account, rest₁⟩
    rcases hclient : takeLevel o.separator rest₁ with ⟨client, rest₂⟩
    rcases happ : takeLevel o.separator rest₂ with ⟨app, subTopic⟩
    rw [parse_of_takeLevel (mt String.isEmpty_iff.2 htext) hwild hrealm haccount hclient happ]
      at h ⊢
    dsimp only at h
    rw [Option.ite_none_right_eq_some] at h
    exact ⟨h.1.2, h.2⟩

/-- The levels of the sub-topic behind the method, and before the request id if there is one. -/
def middle (t : Topic) (o : Options) : List String :=
  match t.requestId with
  | none => (t.subLevels o).drop 1
  | some _ => ((t.subLevels o).drop 1).dropLast

/-- The method, what is between, and the request id are all levels of the sub-topic. -/
theorem subLevels_of_requestId {o : Options} {text id : String}
    (h : (parse o text).requestId = some id) :
    ∃ method, (parse o text).subLevels o = method :: ((parse o text).middle o ++ [id]) := by
  obtain ⟨htwo, hlast⟩ := getLast?_of_requestId h
  rw [middle, h]
  dsimp only
  cases hlevels : (parse o text).subLevels o with
  | nil =>
    rw [hlevels] at htwo
    cases htwo
  | cons method rest =>
    rw [hlevels] at htwo hlast
    -- An id is read of two levels or more, so that it is not the method.
    have hne : rest ≠ [] := by
      rintro rfl
      exact absurd htwo (Nat.not_succ_le_self 1)
    rw [List.getLast?_cons_of_ne_nil hne] at hlast
    refine ⟨method, ?_⟩
    rw [List.drop_succ_cons, List.drop_zero, List.dropLast_append_getLast? id hlast]

def named (levels : List String) : List String := levels.filter fun level => !level.isEmpty

theorem resource_of_requestId_eq_none {t : Topic} {o : Options} (h : t.requestId = none) :
    t.resource o = named (t.middle o) := by
  rw [resource, middle, h]
  rfl

/-- The id is the last level that says something, unless it is empty. -/
theorem resource_of_requestId {o : Options} {text id : String}
    (h : (parse o text).requestId = some id) :
    (parse o text).resource o =
      if id = "" then (named ((parse o text).middle o)).dropLast
      else named ((parse o text).middle o) := by
  obtain ⟨method, hlevels⟩ := subLevels_of_requestId h
  have hresource : (parse o text).resource o =
      (named ((parse o text).middle o ++ [id])).dropLast := by
    rw [resource, h, hlevels]
    rfl
  rw [hresource, named, List.filter_append]
  split
  · next hempty => simp [hempty, named]
  · next hid => simp [hid, named]

/-- **The resource of a request is what stands between its method and its id, unless the id is empty
and there is something between them.** Then the last level of it is missing. -/
theorem resource_eq_middle_iff (o : Options) (text : String) (payload : Payload) :
    let t := parse o text
    let resource := (Request.Context.of o t payload).resource
    (∀ id, t.requestId = some id → ∃ method, t.subLevels o = method :: (t.middle o ++ [id])) ∧
      (resource = named (t.middle o) ↔
        ¬(t.requestId = some "" ∧ ∃ level ∈ t.middle o, level ≠ "")) ∧
      (t.requestId = some "" → resource = (named (t.middle o)).dropLast) := by
  intro t resource
  have hnamed : named (t.middle o) ≠ [] ↔ ∃ level ∈ t.middle o, level ≠ "" := by
    simp [named]
  refine ⟨fun id hid => subLevels_of_requestId hid, ?_, fun hid => ?_⟩
  · cases hid : t.requestId with
    | none => exact iff_of_true (resource_of_requestId_eq_none hid) (by simp)
    | some id =>
      have hresource : resource = _ := resource_of_requestId hid
      rw [hresource]
      by_cases hempty : id = ""
      · have hdropLast : (named (t.middle o)).dropLast = named (t.middle o) ↔
            named (t.middle o) = [] := by
          -- Whatever has a last member is longer with it.
          refine ⟨fun heq => List.length_eq_zero_iff.1 ?_, fun hnil => by rw [hnil]; rfl⟩
          have hlength := congrArg List.length heq
          rw [List.length_dropLast] at hlength
          omega
        rw [if_pos hempty, hempty, hdropLast, ← hnamed]
        simp
      · rw [if_neg hempty]
        exact iff_of_true rfl (by simp [hempty])
  · exact (resource_of_requestId hid).trans (if_pos rfl)

/-- An id that is empty takes the last level of the resource away. -/
theorem not_resource_eq_middle :
    let t := parse {} "$EDC/acme/gw-01/CONF-V1/GET/configurations/"
    t.requestId = some "" ∧ named (t.middle {}) = ["configurations"] ∧
      (Request.Context.of {} t {}).resource ≠ named (t.middle {}) := by
  decide

end Topic

end Uplink
