import Mathlib.Data.List.DropRight
import Uplink.Text.Levels

/-!
# Levels, cut by cut and one character apart

Taking levels off the front one at a time gives the levels that a text is split into, whatever the
length of the separator. Between separators of one character, levels that do not contain it come
back when they are joined and split again.
-/

namespace Uplink.Levels

/-! ## 1. Splitting is cutting, again and again -/

theorem splitFrom_eq_drop (sep : List Char) (pending : Nat) (cs : List Char) :
    splitFrom sep pending cs = splitFrom sep 0 (cs.drop pending) := by
  induction pending generalizing cs with
  | zero => rfl
  | succ n ih =>
    cases cs with
    | nil => rfl
    | cons c cs => rw [splitFrom, ih, List.drop_succ_cons]

theorem splitFrom_of_cutChars_eq_some {sep cs level rest : List Char} (hsep : sep ≠ [])
    (h : cutChars sep cs = some (level, rest)) :
    splitFrom sep 0 cs = level :: splitFrom sep 0 rest := by
  induction cs generalizing level with
  | nil => simp [cutChars, hsep] at h
  | cons c cs ih =>
    rw [cutChars] at h
    rw [splitFrom]
    split at h
    · next hp =>
      obtain ⟨rfl, rfl⟩ : [] = level ∧ (c :: cs).drop sep.length = rest := by simpa using h
      -- The first character of the separator is passed over by `splitFrom` itself.
      obtain ⟨n, hn⟩ := Nat.exists_eq_succ_of_ne_zero (mt List.length_eq_zero_iff.1 hsep)
      rw [if_pos hp, splitFrom_eq_drop, hn, Nat.succ_sub_one, List.drop_succ_cons]
    · next hp =>
      obtain ⟨⟨before, after⟩, hcut, heq⟩ := Option.map_eq_some_iff.1 h
      obtain ⟨rfl, rfl⟩ : c :: before = level ∧ after = rest := by simpa using heq
      rw [if_neg hp, ih hcut, extendHead]

theorem splitFrom_of_cutChars_eq_none {sep cs : List Char} (h : cutChars sep cs = none) :
    splitFrom sep 0 cs = [cs] := by
  induction cs with
  | nil => rfl
  | cons c cs ih =>
    rw [cutChars] at h
    split at h
    · cases h
    · next hp => rw [splitFrom, if_neg hp, ih (Option.map_eq_none_iff.1 h), extendHead]

theorem split_eq_splitFrom {sep : String} (hsep : sep ≠ "") (text : String) :
    split sep text = (splitFrom sep.toList 0 text.toList).map String.ofList := by
  rw [split, splitChars.eq_def]
  split
  · next h => exact absurd (String.toList_eq_nil_iff.1 h) hsep
  · next h => rw [h]

/-- The first level is what stands before the first separator, the others are those of the rest. -/
theorem split_of_cut_eq_some {sep text level rest : String} (hsep : sep ≠ "")
    (h : cut sep text = some (level, rest)) : split sep text = level :: split sep rest := by
  obtain ⟨⟨before, after⟩, hcut, heq⟩ := Option.map_eq_some_iff.1 h
  obtain ⟨rfl, rfl⟩ : String.ofList before = level ∧ String.ofList after = rest := by
    simpa using heq
  rw [split_eq_splitFrom hsep, split_eq_splitFrom hsep,
    splitFrom_of_cutChars_eq_some (mt String.toList_eq_nil_iff.1 hsep) hcut, List.map_cons,
    String.toList_ofList]

theorem split_of_cut_eq_none {sep text : String} (hsep : sep ≠ "") (h : cut sep text = none) :
    split sep text = [text] := by
  rw [split_eq_splitFrom hsep, splitFrom_of_cutChars_eq_none (Option.map_eq_none_iff.1 h),
    List.map_singleton, String.ofList_toList]

theorem split_empty {sep : String} (hsep : sep ≠ "") : split sep "" = [""] := by
  rw [split_eq_splitFrom hsep]
  rfl

/-- The level of a text at a place. It is empty if there is none. -/
def nth (sep text : String) (i : Nat) : String := (split sep text).getD i ""

/-! ## 2. Levels that end -/

theorem cutChars_self {sep : List Char} (hsep : sep ≠ []) : cutChars sep sep = some ([], []) := by
  cases sep with
  | nil => exact absurd rfl hsep
  | cons s sep => simp [cutChars]

theorem cutChars_level {sep cs level rest : List Char} (hsep : sep ≠ [])
    (h : cutChars sep cs = some (level, rest)) :
    cutChars sep (level ++ sep) = some (level, []) := by
  induction cs generalizing level with
  | nil => simp [cutChars, hsep] at h
  | cons c cs ih =>
    rw [cutChars] at h
    split at h
    · next hp =>
      obtain ⟨rfl, -⟩ : [] = level ∧ (c :: cs).drop sep.length = rest := by simpa using h
      exact cutChars_self hsep
    · next hp =>
      obtain ⟨⟨before, after⟩, hcut, heq⟩ := Option.map_eq_some_iff.1 h
      obtain ⟨rfl, rfl⟩ : c :: before = level ∧ after = rest := by simpa using heq
      -- A separator at the first place here would have been there before.
      have hp' : ¬sep.isPrefixOf (c :: (before ++ sep)) := by
        rw [List.isPrefixOf_iff_prefix] at hp ⊢
        rw [← append_of_cutChars hcut, ← List.cons_append] at hp
        exact fun hb => hp (hb.trans (List.prefix_append _ _))
      rw [List.cons_append, cutChars, if_neg hp', ih hcut]
      rfl

theorem cutChars_append {sep level : List Char} (hsep : sep ≠ [])
    (h : cutChars sep (level ++ sep) = some (level, [])) (rest : List Char) :
    cutChars sep (level ++ (sep ++ rest)) = some (level, rest) := by
  induction level with
  | nil =>
    have hp : sep.isPrefixOf (sep ++ rest) := List.isPrefixOf_iff_prefix.2 (List.prefix_append ..)
    rw [List.nil_append]
    cases sep with
    | nil => exact absurd rfl hsep
    | cons s sep' =>
      rw [List.cons_append] at hp ⊢
      rw [cutChars, if_pos hp, ← List.cons_append, List.drop_left]
  | cons c level ih =>
    rw [List.cons_append, cutChars] at h
    split at h
    · cases h
    · next hp =>
      obtain ⟨⟨before, after⟩, hcut, heq⟩ := Option.map_eq_some_iff.1 h
      obtain ⟨rfl, rfl⟩ : before = level ∧ after = [] := by simpa using heq
      -- What follows the separator is too far behind for one to begin at the first place.
      have hp' : ¬sep.isPrefixOf (c :: (before ++ (sep ++ rest))) := by
        rw [List.isPrefixOf_iff_prefix] at hp ⊢
        rw [← List.append_assoc, ← List.cons_append]
        refine fun hb => hp (List.prefix_of_prefix_length_le hb (List.prefix_append _ _) ?_)
        simp only [List.length_cons, List.length_append]
        omega
      rw [List.cons_append, cutChars, if_neg hp', ih hcut]
      rfl

theorem cutChars_level_eq_none {sep level : List Char} (hsep : sep ≠ [])
    (h : cutChars sep (level ++ sep) = some (level, [])) : cutChars sep level = none := by
  induction level with
  | nil => simp [cutChars, hsep]
  | cons c level ih =>
    rw [List.cons_append, cutChars] at h
    split at h
    · cases h
    · next hp =>
      obtain ⟨⟨before, after⟩, hcut, heq⟩ := Option.map_eq_some_iff.1 h
      obtain ⟨rfl, rfl⟩ : before = level ∧ after = [] := by simpa using heq
      have hp' : ¬sep.isPrefixOf (c :: before) := by
        rw [List.isPrefixOf_iff_prefix] at hp ⊢
        exact fun hb => hp (hb.trans (List.prefix_append (c :: before) sep))
      rw [cutChars, if_neg hp', ih hcut, Option.map_none]

theorem cut_eq_some_iff {sep text level rest : String} :
    cut sep text = some (level, rest) ↔
      cutChars sep.toList text.toList = some (level.toList, rest.toList) := by
  rw [cut, Option.map_eq_some_iff]
  constructor
  · rintro ⟨⟨before, after⟩, hcut, heq⟩
    obtain ⟨rfl, rfl⟩ : String.ofList before = level ∧ String.ofList after = rest := by
      simpa using heq
    rw [hcut, String.toList_ofList, String.toList_ofList]
  · intro h
    exact ⟨_, h, by simp only [String.ofList_toList]⟩

/-- A level ends where a separator is put after it: no separator begins before. -/
def Ends (sep level : String) : Prop := cut sep (level ++ sep) = some (level, "")

instance (sep level : String) : Decidable (Ends sep level) := inferInstanceAs (Decidable (_ = _))

theorem ends_iff {sep level : String} :
    Ends sep level ↔
      cutChars sep.toList (level.toList ++ sep.toList) = some (level.toList, []) := by
  rw [Ends, cut_eq_some_iff, String.toList_append]
  rfl

/-- What was cut off is a level that ends. -/
theorem ends_of_cut {sep text level rest : String} (hsep : sep ≠ "")
    (h : cut sep text = some (level, rest)) : Ends sep level :=
  ends_iff.2 (cutChars_level (mt String.toList_eq_nil_iff.1 hsep) (cut_eq_some_iff.1 h))

theorem Ends.cut_append {sep level : String} (hsep : sep ≠ "") (h : Ends sep level)
    (rest : String) : cut sep (level ++ (sep ++ rest)) = some (level, rest) := by
  rw [cut_eq_some_iff, String.toList_append, String.toList_append]
  exact cutChars_append (mt String.toList_eq_nil_iff.1 hsep) (ends_iff.1 h) _

theorem cut_separator_append {sep : String} (hsep : sep ≠ "") (rest : String) :
    cut sep (sep ++ rest) = some ("", rest) := by
  have hends : Ends sep "" :=
    ends_iff.2 (cutChars_self (mt String.toList_eq_nil_iff.1 hsep))
  have h := hends.cut_append hsep rest
  rwa [String.empty_append] at h

theorem cut_eq_none_iff {sep text : String} :
    cut sep text = none ↔ cutChars sep.toList text.toList = none :=
  Option.map_eq_none_iff

theorem Ends.cut_eq_none {sep level : String} (hsep : sep ≠ "") (h : Ends sep level) :
    cut sep level = none :=
  cut_eq_none_iff.2 (cutChars_level_eq_none (mt String.toList_eq_nil_iff.1 hsep) (ends_iff.1 h))

theorem join_cons_cons (sep level next : String) (levels : List String) :
    join sep (level :: next :: levels) = level ++ (sep ++ join sep (next :: levels)) := by
  rw [join, String.intercalate_cons_cons, join, String.append_assoc]

theorem append_of_cut {sep text level rest : String} (h : cut sep text = some (level, rest)) :
    level ++ (sep ++ rest) = text := by
  rw [← String.toList_inj, String.toList_append, String.toList_append, ← List.append_assoc]
  exact append_of_cutChars (cut_eq_some_iff.1 h)

/-- Taking levels off one by one comes to an end. -/
theorem cut_induction {motive : String → Prop} {sep : String} (hsep : sep ≠ "")
    (last : ∀ text, cut sep text = none → motive text)
    (step : ∀ level rest, Ends sep level → motive rest → motive (level ++ (sep ++ rest)))
    (text : String) : motive text := by
  induction hn : text.length using Nat.strongRecOn generalizing text with
  | ind n ih =>
    cases hcut : cut sep text with
    | none => exact last text hcut
    | some parts =>
      obtain ⟨level, rest⟩ := parts
      have htext := append_of_cut hcut
      have hlen : 0 < sep.length := Nat.pos_of_ne_zero (mt String.length_eq_zero_iff.1 hsep)
      have hlt : rest.length < n := by
        rw [← hn, ← htext, String.length_append, String.length_append]
        omega
      exact htext ▸ step level rest (ends_of_cut hsep hcut) (ih _ hlt rest rfl)

theorem Ends.split_append {sep level : String} (hsep : sep ≠ "") (h : Ends sep level)
    (rest : String) : split sep (level ++ (sep ++ rest)) = level :: split sep rest :=
  split_of_cut_eq_some hsep (h.cut_append hsep rest)

theorem join_split {sep : String} (hsep : sep ≠ "") (text : String) :
    join sep (split sep text) = text := by
  induction text using cut_induction hsep with
  | last text hcut => rw [split_of_cut_eq_none hsep hcut, join, String.intercalate_singleton]
  | step level rest hends ih =>
    obtain ⟨next, levels, hsplit⟩ := List.exists_cons_of_ne_nil (split_ne_nil sep rest)
    rw [hends.split_append hsep, hsplit, join_cons_cons, ← hsplit, ih]

theorem cut_eq_none_of_length_split {sep text : String} (hsep : sep ≠ "")
    (h : (split sep text).length = 1) : cut sep text = none := by
  cases hcut : cut sep text with
  | none => rfl
  | some parts =>
    rw [split_of_cut_eq_some hsep hcut, List.length_cons] at h
    have hrest := List.length_pos_iff.2 (split_ne_nil sep parts.2)
    omega

theorem cut_of_mem_split {sep text level : String} (hsep : sep ≠ "")
    (h : level ∈ split sep text) : cut sep level = none := by
  induction text using cut_induction hsep with
  | last text hcut =>
    rw [split_of_cut_eq_none hsep hcut, List.mem_singleton] at h
    exact h ▸ hcut
  | step first rest hends ih =>
    rw [hends.split_append hsep] at h
    rcases List.mem_cons.1 h with rfl | h
    · exact hends.cut_eq_none hsep
    · exact ih h

/-! ## 3. Separators that do not overlap themselves -/

/-- A separator can begin within one that is the same. -/
def Overlaps (sep : String) : Prop :=
  ∃ x y z : String, x ≠ "" ∧ y ≠ "" ∧ sep = x ++ y ∧ sep = y ++ z

theorem not_overlaps_singleton (c : Char) : ¬Overlaps (String.singleton c) := by
  rintro ⟨x, y, -, hx, hy, hxy, -⟩
  have hlen := congrArg String.length hxy
  have hx := Nat.pos_of_ne_zero (mt String.length_eq_zero_iff.1 hx)
  have hy := Nat.pos_of_ne_zero (mt String.length_eq_zero_iff.1 hy)
  rw [String.length_append, String.length_singleton] at hlen
  omega

/-- Between separators that do not overlap, a level ends if no separator is in it. -/
theorem ends_of_cut_eq_none {sep : String} (hover : ¬Overlaps sep) (hsep : sep ≠ "")
    {level : String} (h : cut sep level = none) : Ends sep level := by
  have hsep' := mt String.toList_eq_nil_iff.1 hsep
  rw [cut_eq_none_iff] at h
  rw [ends_iff]
  generalize level.toList = cs at h ⊢
  induction cs with
  | nil =>
    exact cutChars_self hsep'
  | cons c cs ih =>
    rw [cutChars] at h
    split at h
    · cases h
    · next hp =>
      rw [List.isPrefixOf_iff_prefix] at hp
      have hp' : ¬sep.toList.isPrefixOf (c :: (cs ++ sep.toList)) := by
        rw [List.isPrefixOf_iff_prefix]
        rintro ⟨z, hz⟩
        rw [← List.cons_append] at hz
        -- A separator that begins in the level would end in the separator after it.
        rcases List.append_eq_append_iff.1 hz with ⟨more, hlevel, -⟩ | ⟨y, hx, hy⟩
        · exact hp ⟨more, hlevel.symm⟩
        · refine hover
            ⟨String.ofList (c :: cs), String.ofList y, String.ofList z, by simp, ?_, ?_, ?_⟩
          · rintro heq
            rw [String.ofList_eq_empty_iff.1 heq, List.append_nil] at hx
            exact hp (hx ▸ List.prefix_rfl)
          · rw [← String.toList_inj, String.toList_append, String.toList_ofList,
              String.toList_ofList, hx]
          · rw [← String.toList_inj, String.toList_append, String.toList_ofList,
              String.toList_ofList, ← hy]
      rw [List.cons_append, cutChars, if_neg hp', ih (Option.map_eq_none_iff.1 h)]
      rfl

/-- Between separators that do not overlap, texts are split one by one. -/
theorem split_append {sep : String} (hover : ¬Overlaps sep) (hsep : sep ≠ "") (text rest : String) :
    split sep (text ++ (sep ++ rest)) = split sep text ++ split sep rest := by
  induction text using cut_induction hsep with
  | last text hcut =>
    rw [(ends_of_cut_eq_none hover hsep hcut).split_append hsep, split_of_cut_eq_none hsep hcut,
      List.singleton_append]
  | step level more hends ih =>
    rw [String.append_assoc, String.append_assoc, hends.split_append hsep, ih,
      hends.split_append hsep, List.cons_append]

theorem split_join_flatMap {sep : String} (hover : ¬Overlaps sep) (hsep : sep ≠ "")
    {texts : List String} (h : texts ≠ []) :
    split sep (join sep texts) = texts.flatMap (split sep) := by
  induction texts with
  | nil => exact absurd rfl h
  | cons text texts ih =>
    cases texts with
    | nil => simp [join]
    | cons next texts =>
      rw [join_cons_cons, split_append hover hsep, ih (List.cons_ne_nil _ _)]
      exact List.flatMap_cons.symm

/-- Levels that were joined are found again, if no separator is in one of them. -/
theorem split_join_of_cut_eq_none {sep : String} (hover : ¬Overlaps sep) (hsep : sep ≠ "")
    {levels : List String} (h : ∀ level ∈ levels, cut sep level = none) (hne : levels ≠ []) :
    split sep (join sep levels) = levels := by
  rw [split_join_flatMap hover hsep hne]
  clear hne
  induction levels with
  | nil => rfl
  | cons level levels ih =>
    obtain ⟨hlevel, hlevels⟩ := List.forall_mem_cons.1 h
    rw [List.flatMap_cons, split_of_cut_eq_none hsep hlevel, ih hlevels, List.singleton_append]

theorem cutChars_of_length_lt {sep cs : List Char} (h : cs.length < sep.length) :
    cutChars sep cs = none := by
  cases hcut : cutChars sep cs with
  | none => rfl
  | some parts =>
    obtain ⟨before, after⟩ := parts
    have hlen := congrArg List.length (append_of_cutChars hcut)
    rw [List.length_append, List.length_append] at hlen
    omega

theorem head?_of_isPrefixOf {sep cs : List Char} {u : Char} (hsep : sep ≠ [])
    (h : sep.isPrefixOf (u :: cs)) : sep.head? = some u := by
  obtain ⟨s, sep', rfl⟩ := List.exists_cons_of_ne_nil hsep
  rw [List.isPrefixOf_iff_prefix, List.cons_prefix_cons] at h
  rw [List.head?_cons, h.1]

theorem cut_singleton_eq_none {sep : String} {u : Char} (hsep : sep ≠ "")
    (hu : sep.toList.head? ≠ some u) : cut sep (String.singleton u) = none := by
  have hsep' := mt String.toList_eq_nil_iff.1 hsep
  have hp : ¬sep.toList.isPrefixOf [u] := fun hp => hu (head?_of_isPrefixOf hsep' hp)
  have hnil : cutChars sep.toList [] = none := cutChars_of_length_lt (List.length_pos_iff.2 hsep')
  rw [cut_eq_none_iff, String.toList_singleton, cutChars, if_neg hp, hnil, Option.map_none]

/-- A separator that overlaps itself can begin too early, after a text without separators. -/
theorem exists_not_ends {sep : String} (h : Overlaps sep) :
    ∃ x : String, x ≠ "" ∧ ∀ (u : Char), sep.toList.head? ≠ some u →
      cut sep (String.singleton u ++ x) = none ∧ ¬Ends sep (String.singleton u ++ x) := by
  obtain ⟨x, y, z, hx, hy, hxy, hyz⟩ := h
  have hsep : sep.toList ≠ [] := by simp [hxy, hx]
  refine ⟨x, hx, fun u hu => ⟨?_, fun hends => ?_⟩⟩
  · have hshort : x.toList.length < sep.toList.length := by
      have hy := List.length_pos_iff.2 (mt String.toList_eq_nil_iff.1 hy)
      rw [hxy, String.toList_append, List.length_append]
      omega
    have hp : ¬sep.toList.isPrefixOf (u :: x.toList) := fun hp => hu (head?_of_isPrefixOf hsep hp)
    rw [cut_eq_none_iff, String.toList_append, String.toList_singleton, List.singleton_append,
      cutChars, if_neg hp, cutChars_of_length_lt hshort, Option.map_none]
  · -- After `x`, the separator that was put there is not the first one.
    have htext : x.toList ++ sep.toList = sep.toList ++ z.toList := by
      conv_lhs => rw [hyz]
      rw [hxy, String.toList_append, String.toList_append, List.append_assoc]
    have hp : ¬sep.toList.isPrefixOf (u :: (sep.toList ++ z.toList)) :=
      fun hp => hu (head?_of_isPrefixOf hsep hp)
    have hself : cutChars sep.toList ([] ++ sep.toList) = some ([], []) := cutChars_self hsep
    have hcut := cutChars_append hsep hself z.toList
    rw [ends_iff, String.toList_append, String.toList_singleton, List.append_assoc, htext,
      List.singleton_append, cutChars, if_neg hp, ← List.nil_append (sep.toList ++ z.toList),
      hcut] at hends
    simp [hx] at hends

/-! ## 4. Separators of one character -/

variable {c : Char}

theorem splitChars_singleton (c : Char) (cs : List Char) : splitChars [c] cs = cs.splitOn c := by
  rw [splitChars]
  induction cs with
  | nil => rfl
  | cons x cs ih =>
    rw [splitFrom, List.splitOn_cons_eq_if_modifyHead]
    have hp : [c].isPrefixOf (x :: cs) = (x == c) := by
      simp [List.isPrefixOf, BEq.comm]
    rw [hp, List.length_singleton, Nat.sub_self, ih]
    split
    · rfl
    · cases h : cs.splitOn c with
      | nil => exact absurd h (List.splitOn_ne_nil c cs)
      | cons level levels => rfl

theorem split_singleton (c : Char) (text : String) :
    split (String.singleton c) text = (text.toList.splitOn c).map String.ofList := by
  rw [split, String.toList_singleton, splitChars_singleton]

theorem notMem_of_mem_splitOn {cs level : List Char} (h : level ∈ cs.splitOn c) : c ∉ level := by
  induction cs generalizing level with
  | nil => simp_all
  | cons x cs ih =>
    rw [List.splitOn_cons_eq_if_modifyHead] at h
    split at h
    · rcases List.mem_cons.1 h with rfl | h
      · exact List.not_mem_nil
      · exact ih h
    · -- Only the first level gets longer, by a character that is no separator.
      next hx =>
      cases hsplit : cs.splitOn c with
      | nil => exact absurd hsplit (List.splitOn_ne_nil c cs)
      | cons first levels =>
        rw [hsplit] at h ih
        rcases List.mem_cons.1 h with rfl | h
        · have hxc : c ≠ x := fun heq => hx (beq_iff_eq.2 heq.symm)
          exact List.not_mem_cons_of_ne_of_not_mem hxc (ih List.mem_cons_self)
        · exact ih (List.mem_cons_of_mem _ h)

/-- No level contains the separator. -/
theorem notMem_of_mem_split {text level : String} (h : level ∈ split (String.singleton c) text) :
    c ∉ level.toList := by
  rw [split_singleton] at h
  obtain ⟨cs, hcs, rfl⟩ := List.mem_map.1 h
  rw [String.toList_ofList]
  exact notMem_of_mem_splitOn hcs

/-- Levels that were joined are found again, if none of them contains the separator. -/
theorem split_join {levels : List String} (h : ∀ level ∈ levels, c ∉ level.toList)
    (hne : levels ≠ []) :
    split (String.singleton c) (join (String.singleton c) levels) = levels := by
  have hlevels : ∀ cs ∈ levels.map String.toList, c ∉ cs := by simpa using h
  rw [split_singleton, join, String.toList_intercalate, String.toList_singleton,
    List.splitOn_intercalate c hlevels (by simpa using hne), List.map_map]
  simp [Function.comp_def]

theorem cut_of_notMem {text : String} (h : c ∉ text.toList) :
    cut (String.singleton c) text = none := by
  have hcut (cs : List Char) (hcs : c ∉ cs) : cutChars [c] cs = none := by
    induction cs with
    | nil => rfl
    | cons x cs ih =>
      obtain ⟨hx, hcs⟩ := not_or.1 (mt List.mem_cons.2 hcs)
      simp [cutChars, hx, ih hcs]
  rw [cut, String.toList_singleton, hcut _ h, Option.map_none]

theorem ends_of_notMem {level : String} (h : c ∉ level.toList) :
    Ends (String.singleton c) level :=
  ends_of_cut_eq_none (not_overlaps_singleton c) String.singleton_ne_empty (cut_of_notMem h)

theorem mem_join (c : Char) (level next : String) (levels : List String) :
    c ∈ (join (String.singleton c) (level :: next :: levels)).toList := by
  simp [join]

theorem length_split (c : Char) (text : String) :
    (split (String.singleton c) text).length = text.toList.count c + 1 := by
  rw [split_singleton, List.length_map]
  induction text.toList with
  | nil => rfl
  | cons x cs ih =>
    rw [List.splitOn_cons_eq_if_modifyHead, List.count_cons]
    split <;> simp [ih]

theorem two_le_length_split (c : Char) (text : String) :
    2 ≤ (split (String.singleton c) text).length ↔ c ∈ text.toList := by
  rw [length_split, ← List.count_pos_iff]
  omega

/-- What stands after the last separator, or all of a text that has none. -/
def afterLast (c : Char) (text : String) : String :=
  String.ofList (text.toList.rtakeWhile (· != c))

theorem getLast?_splitOn (c : Char) (cs : List Char) :
    (cs.splitOn c).getLast? = some (cs.rtakeWhile (· != c)) := by
  have hcut := List.rdropWhile_append_rtakeWhile (p := (· != c)) (l := cs)
  have hlast : c ∉ cs.rtakeWhile (· != c) := fun hc => by
    simpa using List.mem_rtakeWhile_imp hc
  generalize cs.rtakeWhile (· != c) = last at hcut hlast ⊢
  by_cases hnil : cs.rdropWhile (· != c) = []
  · rw [← hcut, hnil, List.nil_append, List.splitOn_eq_singleton hlast]
    rfl
  · -- What stands before the last level ends in a separator.
    have hend := List.rdropWhile_last_not (· != c) cs hnil
    rw [Bool.not_eq_true, bne_eq_false_iff_eq] at hend
    rw [← List.dropLast_append_getLast hnil, hend, List.append_assoc, List.singleton_append] at hcut
    rw [← hcut, List.splitOn_append_cons_self, List.splitOn_eq_singleton hlast,
      List.getLast?_concat]

theorem getLast?_split (c : Char) (text : String) :
    (split (String.singleton c) text).getLast? = some (afterLast c text) := by
  rw [split_singleton, List.getLast?_map, getLast?_splitOn]
  rfl

end Uplink.Levels
