import Uplink.Proofs.Text.Fronts
import Uplink.Text.Redaction

/-!
# What a struck secret leaves of itself

The value after a keyword does not show in a text that leaves, unless an earlier secret was thought
to have the keyword for its value. Then the scan goes on behind the delimiter, and what stands there
is in the open as soon as a blank comes first.
-/

namespace Uplink.Redaction

/-! ## 1. Letters -/

theorem bounds_of_isAlphanum {c : Char} (h : c.isAlphanum = true) :
    48 ≤ c.toNat ∧ c.toNat ≤ 122 := by
  have hbetween {first last : Char} (hfirst : 48 ≤ first.toNat) (hlast : last.toNat ≤ 122)
      (h : first.val ≤ c.val ∧ c.val ≤ last.val) : 48 ≤ c.toNat ∧ c.toNat ≤ 122 :=
    ⟨Nat.le_trans hfirst (UInt32.le_iff_toNat_le.1 h.1),
      Nat.le_trans (UInt32.le_iff_toNat_le.1 h.2) hlast⟩
  rcases Bool.or_eq_true_iff.1 h with halpha | hdigit
  · rcases Bool.or_eq_true_iff.1 halpha with hupper | hlower
    · exact hbetween (by decide) (by decide) (of_decide_eq_true hupper)
    · have hlower' := Bool.and_eq_true_iff.1 hlower
      exact hbetween (by decide) (by decide)
        ⟨of_decide_eq_true hlower'.1, of_decide_eq_true hlower'.2⟩
  · have hdigit' := Bool.and_eq_true_iff.1 hdigit
    exact hbetween (by decide) (by decide)
      ⟨of_decide_eq_true hdigit'.1, of_decide_eq_true hdigit'.2⟩

/-- No blank stands among the visible characters of ASCII. -/
theorem bounds_of_isBlank {c : Char} (h : Blank.isBlank c = true) :
    c.toNat ≤ 32 ∨ 127 ≤ c.toNat := by
  obtain ⟨⟨first, last⟩, hrange, h⟩ := List.any_eq_true.1 h
  rw [Bool.and_eq_true, decide_eq_true_eq, decide_eq_true_eq] at h
  have houtside : ∀ r ∈ Blank.ranges, r.2 ≤ 32 ∨ 127 ≤ r.1 := by decide
  rcases houtside _ hrange with hlast | hfirst
  · exact .inl (Nat.le_trans h.2 hlast)
  · exact .inr (Nat.le_trans hfirst h.1)

theorem isPathChar_of_isBlank {c : Char} (h : Blank.isBlank c = true) : isPathChar c = false := by
  have hbounds := bounds_of_isBlank h
  rw [Bool.eq_false_iff]
  intro hpath
  simp only [isPathChar, Bool.or_eq_true, beq_iff_eq] at hpath
  rcases hpath with (((halpha | rfl) | rfl) | rfl) | rfl
  · have := bounds_of_isAlphanum halpha
    omega
  all_goals exact absurd h (by decide)

theorem isAlpha_of_isLower_toLower {c : Char} (h : c.toLower.isLower = true) :
    c.isAlpha = true := by
  refine Bool.or_eq_true_iff.2 ?_
  by_cases hupper : c.isUpper = true
  · exact .inl hupper
  · have hsame : c.toLower = c := dif_neg fun hc => hupper (decide_eq_true hc)
    rw [hsame] at h
    exact .inr h

theorem isSolid_of_isLower_fold {c : Char} (h : (fold c).isLower = true) : isSolid c = true := by
  rw [isSolid, Bool.not_eq_true', Bool.eq_false_iff]
  intro hblank
  rw [fold] at h
  split at h
  · next hc => exact absurd (hc ▸ hblank) (by decide)
  · split at h
    · next hc => exact absurd (hc ▸ hblank) (by decide)
    · have halpha := isAlpha_of_isLower_toLower h
      have hbounds := bounds_of_isAlphanum (c := c) (by rw [Char.isAlphanum, halpha, Bool.true_or])
      have := bounds_of_isBlank hblank
      omega

theorem not_isDelimiter_of_isLower_fold {c : Char} (h : (fold c).isLower = true) :
    isDelimiter c = false := by
  rw [Bool.eq_false_iff]
  intro hdelimiter
  rw [isDelimiter, Bool.or_eq_true, beq_iff_eq, beq_iff_eq] at hdelimiter
  rcases hdelimiter with rfl | rfl <;> exact absurd h (by decide)

theorem isSolid_of_isDelimiter {c : Char} (h : isDelimiter c = true) : isSolid c = true := by
  rw [isDelimiter, Bool.or_eq_true, beq_iff_eq, beq_iff_eq] at h
  rcases h with rfl | rfl <;> decide

/-! ## 2. Keywords -/

/-- A word of a text is a keyword, in whatever case. -/
def IsKeyword (word : List Char) : Prop := word.map fold ∈ keywords

instance (word : List Char) : Decidable (IsKeyword word) := inferInstanceAs (Decidable (_ ∈ _))

theorem all_isLower_of_mem_keywords : ∀ word ∈ keywords, word.all Char.isLower = true := by
  decide

theorem ne_nil_of_mem_keywords : ∀ word ∈ keywords, word ≠ [] := by
  decide

/-- No keyword stands at the beginning or at the end of another one. -/
theorem eq_of_mem_keywords :
    ∀ word ∈ keywords, ∀ other ∈ keywords, other <+: word ∨ other <:+ word → other = word := by
  decide

namespace IsKeyword

variable {word : List Char} {c : Char}

theorem isLower_fold (h : IsKeyword word) (hc : c ∈ word) : (fold c).isLower = true :=
  List.all_eq_true.1 (all_isLower_of_mem_keywords _ h) _ (List.mem_map_of_mem hc)

theorem isSolid (h : IsKeyword word) (hc : c ∈ word) : isSolid c = true :=
  isSolid_of_isLower_fold (h.isLower_fold hc)

theorem not_isDelimiter (h : IsKeyword word) (hc : c ∈ word) : isDelimiter c = false :=
  not_isDelimiter_of_isLower_fold (h.isLower_fold hc)

theorem ne_nil (h : IsKeyword word) : word ≠ [] :=
  fun hword => ne_nil_of_mem_keywords _ h (by rw [hword]; rfl)

end IsKeyword

theorem isPrefix_map_iff {word cs : List Char} :
    (cs.take word.length).map fold = word ↔ word <+: cs.map fold := by
  rw [List.prefix_iff_eq_take, List.map_take, eq_comm]

theorem keywordAt_eq_some_iff {word cs : List Char} :
    keywordAt cs = some word ↔ word ∈ keywords ∧ word <+: cs.map fold := by
  constructor
  · intro h
    have hfold := List.find?_some h
    rw [beq_iff_eq, isPrefix_map_iff] at hfold
    exact ⟨List.mem_of_find?_eq_some h, hfold⟩
  · rintro ⟨hmem, hprefix⟩
    cases h : keywordAt cs with
    | none =>
      have hnone := List.find?_eq_none.1 h word hmem
      rw [beq_iff_eq, isPrefix_map_iff] at hnone
      exact absurd hprefix hnone
    | some other =>
      -- The first keyword that fits is the only one, since none begins with another.
      have hfold := List.find?_some h
      rw [beq_iff_eq, isPrefix_map_iff] at hfold
      have hother : other ∈ keywords := List.mem_of_find?_eq_some h
      rcases List.prefix_or_prefix_of_prefix hfold hprefix with hle | hle
      · rw [eq_of_mem_keywords _ hmem _ hother (.inl hle)]
      · rw [eq_of_mem_keywords _ hother _ hmem (.inl hle)]

/-! ## 3. Labels -/

/-- What stands in front of a secret value. -/
structure Label where
  word : List Char
  delimiter : Char
  blanks : List Char
  isKeyword : IsKeyword word
  isDelimiter : isDelimiter delimiter = true
  areBlank : blanks.all Blank.isBlank = true

theorem Label.isBlank (x : Label) {c : Char} (hc : c ∈ x.blanks) : Blank.isBlank c = true :=
  List.all_eq_true.1 x.areBlank c hc

def Label.mark (x : Label) : List Char := x.word ++ [x.delimiter]

def Label.text (x : Label) : List Char := x.mark ++ x.blanks

theorem Label.text_append (x : Label) (rest : List Char) :
    x.text ++ rest = x.word ++ (x.delimiter :: (x.blanks ++ rest)) := by
  simp only [text, mark, List.append_assoc, List.cons_append, List.nil_append]

theorem Label.length_text (x : Label) : x.text.length = x.word.length + 1 + x.blanks.length := by
  simp only [text, mark, List.length_append, List.length_singleton]

def HasValue (cs : List Char) : Prop := cs.takeWhile isSolid ≠ []

/-- No value stands first. -/
def IsCutOff (cs : List Char) : Prop := ∀ c ∈ cs.head?, Blank.isBlank c = true

instance (cs : List Char) : Decidable (IsCutOff cs) :=
  decidable_of_iff (cs.head?.all Blank.isBlank = true) (Option.all_eq_true ..)

theorem hasValue_cons {c : Char} {cs : List Char} : HasValue (c :: cs) ↔ isSolid c = true := by
  rw [HasValue, List.takeWhile_cons]
  split
  · next hc => exact iff_of_true (List.cons_ne_nil _ _) hc
  · next hc => exact iff_of_false (fun h => h rfl) hc

theorem hasValue_of_solid {cs : List Char} (h : ∀ c ∈ cs, isSolid c = true) (hne : cs ≠ [])
    (more : List Char) : HasValue (cs ++ more) := by
  obtain ⟨c, cs, rfl⟩ := List.exists_cons_of_ne_nil hne
  exact hasValue_cons.2 (h c List.mem_cons_self)

theorem isCutOff_iff {cs : List Char} : IsCutOff cs ↔ ¬HasValue cs := by
  cases cs with
  | nil => exact iff_of_true (fun c hc => by cases hc) (fun h => h rfl)
  | cons c cs =>
    rw [hasValue_cons, isSolid, Bool.not_eq_true', Bool.not_eq_false]
    exact ⟨fun h => h c rfl, fun h b hb => Option.some.inj hb ▸ h⟩

theorem dropWhile_value {value rest : List Char} (hvalue : ∀ c ∈ value, isSolid c = true)
    (hrest : IsCutOff rest) : (value ++ rest).dropWhile isSolid = rest := by
  rw [List.dropWhile_append_of_pos hvalue]
  cases rest with
  | nil => rfl
  | cons c cs => exact List.dropWhile_cons_of_neg (mt hasValue_cons.2 (isCutOff_iff.1 hrest))

theorem exists_value (cs : List Char) :
    ∃ value later, cs = value ++ later ∧ (∀ c ∈ value, isSolid c = true) ∧ IsCutOff later := by
  refine ⟨cs.takeWhile isSolid, cs.dropWhile isSolid, List.takeWhile_append_dropWhile.symm,
    List.all_eq_true.1 List.all_takeWhile, fun c hc => ?_⟩
  have hnot := List.head?_dropWhile_not isSolid cs
  rw [Option.mem_def.1 hc] at hnot
  exact (Bool.not_eq_false' _).mp hnot

theorem span_blanks {blanks rest : List Char} (h : ∀ c ∈ blanks, Blank.isBlank c = true)
    (hrest : HasValue rest) :
    (blanks ++ rest).takeWhile Blank.isBlank = blanks ∧
      (blanks ++ rest).dropWhile Blank.isBlank = rest := by
  cases rest with
  | nil => exact absurd rfl hrest
  | cons c cs =>
    have hsolid : ¬Blank.isBlank c = true := by
      rw [hasValue_cons, isSolid, Bool.not_eq_true'] at hrest
      exact Bool.eq_false_iff.1 hrest
    rw [List.takeWhile_append_of_pos h, List.dropWhile_append_of_pos h,
      List.takeWhile_cons_of_neg hsolid, List.dropWhile_cons_of_neg hsolid, List.append_nil]
    exact ⟨rfl, rfl⟩

theorem secretAt_label (x : Label) {rest : List Char} (h : HasValue rest) :
    secretAt (x.text ++ rest) =
      some (x.word.length, x.text.length + (rest.takeWhile isSolid).length) := by
  have hkeyword : keywordAt (x.text ++ rest) = some (x.word.map fold) := by
    rw [keywordAt_eq_some_iff, x.text_append, List.map_append]
    exact ⟨x.isKeyword, List.prefix_append _ _⟩
  have hvalue : (rest.takeWhile isSolid).isEmpty = false :=
    Bool.eq_false_iff.2 (mt List.isEmpty_iff.1 h)
  obtain ⟨hblanks, hrest⟩ := span_blanks (fun c hc => x.isBlank hc) h
  simp only [secretAt, hkeyword, Option.bind_eq_bind, Option.bind_some, List.length_map]
  rw [x.text_append, List.drop_left]
  simp only [x.isDelimiter, hrest, hblanks, hvalue, Bool.not_false, Bool.and_true, if_true,
    x.length_text]

theorem exists_label {cs : List Char} {found : Nat × Nat} (h : secretAt cs = some found) :
    ∃ (x : Label) (rest : List Char), cs = x.text ++ rest ∧ HasValue rest := by
  rw [secretAt] at h
  obtain ⟨word, hword, h⟩ := Option.bind_eq_some_iff.1 h
  obtain ⟨hmem, hprefix⟩ := keywordAt_eq_some_iff.1 hword
  split at h
  · cases h
  · next c rest hdrop =>
    simp only at h
    split at h
    · next hfound =>
      rw [Bool.and_eq_true, Bool.not_eq_true'] at hfound
      have hkeyword : IsKeyword (cs.take word.length) := by
        rw [IsKeyword, isPrefix_map_iff.2 hprefix]
        exact hmem
      refine ⟨⟨_, c, rest.takeWhile Blank.isBlank, hkeyword, hfound.1, List.all_takeWhile⟩,
        rest.dropWhile Blank.isBlank, ?_, ?_⟩
      · rw [Label.text_append, List.takeWhile_append_dropWhile, ← hdrop, List.take_append_drop]
      · exact fun hnil => Bool.eq_false_iff.1 hfound.2 (List.isEmpty_iff.2 hnil)
    · cases h

/-! ## 4. The scan for secrets -/

theorem strikeSecrets_eq_drop (pending : Nat) (cs : List Char) :
    strikeSecrets pending cs = strikeSecrets 0 (cs.drop pending) := by
  induction pending generalizing cs with
  | zero => rfl
  | succ n ih =>
    cases cs with
    | nil => rfl
    | cons c cs => rw [strikeSecrets, ih, List.drop_succ_cons]

theorem strikeSecrets_of_none {c : Char} {cs : List Char} (h : secretAt (c :: cs) = none) :
    strikeSecrets 0 (c :: cs) = c :: strikeSecrets 0 cs := by
  rw [strikeSecrets, h]

theorem strikeSecrets_of_some {c : Char} {cs : List Char} {word total : Nat}
    (h : secretAt (c :: cs) = some (word, total + 1)) :
    strikeSecrets 0 (c :: cs) =
      (c :: cs).take word ++ struckSecret ++ strikeSecrets 0 (cs.drop total) := by
  rw [strikeSecrets, h, ← strikeSecrets_eq_drop]
  rfl

theorem drop_length_takeWhile (solid : Char → Bool) (cs : List Char) :
    cs.drop (cs.takeWhile solid).length = cs.dropWhile solid := by
  calc cs.drop (cs.takeWhile solid).length
      = (cs.takeWhile solid ++ cs.dropWhile solid).drop (cs.takeWhile solid).length := by
        rw [List.takeWhile_append_dropWhile]
    _ = cs.dropWhile solid := List.drop_left

/-- A secret is passed over as a whole, and its keyword is all that is left. -/
theorem strikeSecrets_label (x : Label) {rest : List Char} (h : HasValue rest) :
    strikeSecrets 0 (x.text ++ rest) =
      x.word ++ struckSecret ++ strikeSecrets 0 (rest.dropWhile isSolid) := by
  have hfound := secretAt_label x h
  have htake : (x.text ++ rest).take x.word.length = x.word := by
    rw [x.text_append, List.take_left]
  have hdrop : (x.text ++ rest).drop (x.text.length + (rest.takeWhile isSolid).length) =
      rest.dropWhile isSolid := by
    rw [List.drop_length_add_append, drop_length_takeWhile]
  cases hcs : x.text ++ rest with
  | nil => simp [Label.text, Label.mark] at hcs
  | cons c cs =>
    have hpos : 0 < x.text.length + (rest.takeWhile isSolid).length := by
      rw [x.length_text]
      omega
    obtain ⟨n, hn⟩ := Nat.exists_eq_add_one.2 hpos
    rw [hcs, hn] at hfound hdrop
    rw [hcs] at htake
    rw [strikeSecrets_of_some hfound, htake, ← hdrop, List.drop_succ_cons]

theorem Label.head_mem_word {x : Label} {c : Char} {rest cs : List Char}
    (h : x.text ++ rest = c :: cs) : c ∈ x.word := by
  rw [x.text_append] at h
  obtain ⟨first, letters, hword⟩ := List.exists_cons_of_ne_nil x.isKeyword.ne_nil
  rw [hword, List.cons_append] at h
  rw [hword, ← (List.cons.inj h).1]
  exact List.mem_cons_self

theorem strikeSecrets_of_not_isLower {front : List Char}
    (h : ∀ c ∈ front, (fold c).isLower = false) (rest : List Char) :
    strikeSecrets 0 (front ++ rest) = front ++ strikeSecrets 0 rest := by
  induction front with
  | nil => rfl
  | cons c front ih =>
    have hnone : secretAt (c :: (front ++ rest)) = none := by
      cases hfound : secretAt (c :: (front ++ rest)) with
      | none => rfl
      | some found =>
        obtain ⟨x, behind, hcs, -⟩ := exists_label hfound
        have hlower := x.isKeyword.isLower_fold (Label.head_mem_word hcs.symm)
        rw [h c List.mem_cons_self] at hlower
        cases hlower
    rw [List.cons_append, strikeSecrets_of_none hnone,
      ih fun b hb => h b (List.mem_cons_of_mem c hb), List.cons_append]

theorem strikeSecrets_blanks {blanks : List Char} (h : ∀ c ∈ blanks, Blank.isBlank c = true)
    (rest : List Char) : strikeSecrets 0 (blanks ++ rest) = blanks ++ strikeSecrets 0 rest := by
  refine strikeSecrets_of_not_isLower (fun c hc => ?_) rest
  rw [Bool.eq_false_iff]
  intro hlower
  have hsolid := isSolid_of_isLower_fold hlower
  rw [isSolid, h c hc] at hsolid
  cases hsolid

/-! ## 5. Where a keyword comes after something else -/

theorem eq_of_append_delimiter {u v r s : List Char} {d e : Char}
    (hu : ∀ c ∈ u, isDelimiter c = false) (hv : ∀ c ∈ v, isDelimiter c = false)
    (hd : isDelimiter d = true) (he : isDelimiter e = true) (h : u ++ d :: r = v ++ e :: s) :
    u = v := by
  have hspan (w t : List Char) (c : Char) (hw : ∀ b ∈ w, isDelimiter b = false)
      (hc : isDelimiter c = true) : (w ++ c :: t).takeWhile (fun b => !isDelimiter b) = w := by
    rw [List.takeWhile_append_of_pos (by simpa using hw),
      List.takeWhile_cons_of_neg (by simp [hc]), List.append_nil]
  rw [← hspan u r d hu hd, h, hspan v s e hv he]

theorem Label.mark_append (x : Label) (rest : List Char) :
    x.mark ++ rest = x.word ++ x.delimiter :: rest := by
  rw [mark, List.append_assoc, List.singleton_append]

theorem Label.exists_letter (x : Label) (rest : List Char) :
    ∃ c cs, x.mark ++ rest = c :: cs ∧ Redaction.isDelimiter c = false ∧
      Blank.isBlank c = false := by
  obtain ⟨c, letters, hword⟩ := List.exists_cons_of_ne_nil x.isKeyword.ne_nil
  have hc : c ∈ x.word := by rw [hword]; exact List.mem_cons_self
  refine ⟨c, letters ++ x.delimiter :: rest, ?_, x.isKeyword.not_isDelimiter hc, ?_⟩
  · rw [x.mark_append, hword, List.cons_append]
  · exact (Bool.not_eq_true' _).mp (x.isKeyword.isSolid hc)

/-- No keyword ends where another one does that begins before it. -/
theorem Label.eq_nil_of_append {x y : Label} {before : List Char} (h : x.word = before ++ y.word) :
    before = [] := by
  have hsuffix : y.word.map fold <:+ x.word.map fold := by
    rw [h, List.map_append]
    exact List.suffix_append _ _
  have hsame := eq_of_mem_keywords _ x.isKeyword _ y.isKeyword (.inr hsuffix)
  have hlength := congrArg List.length hsame
  rw [h, List.length_map, List.length_map, List.length_append] at hlength
  exact List.eq_nil_of_length_eq_zero (by omega)

/-- A delimiter that comes after a keyword that begins before a mark is not in the mark. -/
theorem Label.mark_within {x y : Label} {before more behind : List Char} (hbefore : before ≠ [])
    (h : x.mark ++ more = before ++ (y.mark ++ behind)) :
    ∃ middle, before = x.mark ++ middle ∧ more = middle ++ (y.mark ++ behind) := by
  rw [x.mark_append] at h
  rcases List.append_eq_append_iff.1 h with ⟨middle, hmiddle, hmore⟩ | ⟨letters, hword, hmark⟩
  · -- The delimiter stands before the mark, since the mark begins with a letter.
    obtain ⟨c, cs, hletter, hc, -⟩ := y.exists_letter behind
    cases middle with
    | nil =>
      rw [List.nil_append, hletter] at hmore
      rw [← (List.cons.inj hmore).1, x.isDelimiter] at hc
      cases hc
    | cons d middle =>
      obtain ⟨rfl, hrest⟩ := List.cons.inj hmore
      exact ⟨middle, by rw [hmiddle, x.mark_append], hrest⟩
  · -- The word would end where that of the mark does, and the two would overlap.
    rw [y.mark_append] at hmark
    have hletters : ∀ c ∈ letters, Redaction.isDelimiter c = false := fun c hc =>
      x.isKeyword.not_isDelimiter (by rw [hword]; exact List.mem_append_right _ hc)
    have hsame := eq_of_append_delimiter (fun c hc => y.isKeyword.not_isDelimiter hc) hletters
      y.isDelimiter x.isDelimiter hmark
    exact absurd (eq_nil_of_append (hsame ▸ hword)) hbefore

/-- A label that begins before a mark is over where the mark begins. -/
theorem Label.within {x y : Label} {before rest behind : List Char} (hbefore : before ≠ [])
    (h : x.text ++ rest = before ++ (y.mark ++ behind)) :
    ∃ between, before = x.text ++ between ∧ rest = between ++ (y.mark ++ behind) := by
  rw [text, List.append_assoc] at h
  obtain ⟨middle, hmiddle, hmore⟩ := mark_within hbefore h
  rcases List.append_eq_append_iff.1 hmore with ⟨between, hb, hr⟩ | ⟨blanks, hb, hr⟩
  · exact ⟨between, by rw [hmiddle, hb, text, List.append_assoc], hr⟩
  · obtain ⟨c, cs, hletter, -, hc⟩ := y.exists_letter behind
    cases blanks with
    | nil => exact ⟨[], by rw [hmiddle, text, hb]; simp, hr.symm⟩
    | cons b blanks =>
      have hmem : b ∈ x.blanks := by
        rw [hb]
        exact List.mem_append_right _ List.mem_cons_self
      have hblank := x.isBlank hmem
      rw [hletter] at hr
      rw [(List.cons.inj hr).1, hblank] at hc
      cases hc

/-! ## 6. What the scan does with a mark -/

/-- The scan for secrets looks at the end of a text: no secret that it found before reaches into
it. -/
inductive LooksAt : List Char → List Char → Prop where
  | start {rest : List Char} : LooksAt [] rest
  | keep {c : Char} {before rest : List Char} (isNone : secretAt (c :: (before ++ rest)) = none) :
      LooksAt before rest → LooksAt (c :: before) rest
  | strike (x : Label) {value before rest : List Char} (hasValue : value ≠ [])
      (areSolid : ∀ c ∈ value, isSolid c = true) (isCutOff : IsCutOff (before ++ rest)) :
      LooksAt before rest → LooksAt (x.text ++ (value ++ before)) rest

variable {y : Label} {before : List Char}

theorem hasValue_append_mark (between behind : List Char) :
    HasValue (between ++ (y.mark ++ behind)) ↔ HasValue (between ++ y.mark) := by
  cases between with
  | nil =>
    obtain ⟨c, letters, hword⟩ := List.exists_cons_of_ne_nil y.isKeyword.ne_nil
    rw [Label.mark, hword]
    exact hasValue_cons.trans hasValue_cons.symm
  | cons c between => exact hasValue_cons.trans hasValue_cons.symm

/-- Whether a secret begins before a mark does not depend on what stands behind the mark. -/
theorem secretAt_mark_congr {c : Char} (h : secretAt (c :: (before ++ y.mark)) = none)
    (behind : List Char) : secretAt (c :: (before ++ (y.mark ++ behind))) = none := by
  cases hfound : secretAt (c :: (before ++ (y.mark ++ behind))) with
  | none => rfl
  | some found =>
    obtain ⟨x, rest, hcs, hvalue⟩ := exists_label hfound
    obtain ⟨between, hbetween, rfl⟩ := Label.within (List.cons_ne_nil c before) hcs.symm
    have hsecret := secretAt_label x ((hasValue_append_mark between behind).1 hvalue)
    rw [← List.append_assoc, ← hbetween, List.cons_append, h] at hsecret
    cases hsecret

theorem strikeSecrets_value (x : Label) {value rest : List Char} (hvalue : value ≠ [])
    (hsolid : ∀ c ∈ value, isSolid c = true) (hrest : IsCutOff rest) :
    strikeSecrets 0 (x.text ++ (value ++ rest)) =
      x.word ++ struckSecret ++ strikeSecrets 0 rest := by
  rw [strikeSecrets_label x (hasValue_of_solid hsolid hvalue rest), dropWhile_value hsolid hrest]

theorem LooksAt.exists_written (h : LooksAt before y.mark) :
    ∃ written, ∀ behind, strikeSecrets 0 (before ++ (y.mark ++ behind)) =
      written ++ strikeSecrets 0 (y.mark ++ behind) := by
  generalize hmark : y.mark = mark at h
  induction h with
  | start => exact ⟨[], fun behind => rfl⟩
  | @keep c before mark isNone _ ih =>
    subst hmark
    obtain ⟨written, hwritten⟩ := ih rfl
    refine ⟨c :: written, fun behind => ?_⟩
    rw [List.cons_append, strikeSecrets_of_none (secretAt_mark_congr isNone behind),
      hwritten behind, List.cons_append]
  | @strike x value before mark hasValue areSolid isCutOff _ ih =>
    subst hmark
    obtain ⟨written, hwritten⟩ := ih rfl
    refine ⟨x.word ++ struckSecret ++ written, fun behind => ?_⟩
    have hrest : IsCutOff (before ++ (y.mark ++ behind)) := by
      rwa [isCutOff_iff, hasValue_append_mark, ← isCutOff_iff]
    rw [List.append_assoc, List.append_assoc, strikeSecrets_value x hasValue areSolid hrest,
      hwritten behind]
    exact (List.append_assoc _ _ _).symm

theorem isSolid_of_mem_mark {c : Char} (hc : c ∈ y.mark) : isSolid c = true := by
  rcases List.mem_append.1 hc with hword | hdelimiter
  · exact y.isKeyword.isSolid hword
  · rw [List.mem_singleton.1 hdelimiter]
    exact isSolid_of_isDelimiter y.isDelimiter

/-- A value that reaches a mark goes on as far as what stands behind the mark does. -/
theorem strikeSecrets_over_mark (x y : Label) {value : List Char}
    (hvalue : ∀ c ∈ value, isSolid c = true) (behind : List Char) :
    strikeSecrets 0 (x.text ++ (value ++ (y.mark ++ behind))) =
      x.word ++ struckSecret ++ strikeSecrets 0 (behind.dropWhile isSolid) := by
  have hfirst : HasValue (value ++ (y.mark ++ behind)) := by
    rw [← List.append_assoc]
    refine hasValue_of_solid (fun c hc => ?_) (by simp [Label.mark]) behind
    rcases List.mem_append.1 hc with hc | hc
    · exact hvalue c hc
    · exact isSolid_of_mem_mark hc
  rw [strikeSecrets_label x hfirst, List.dropWhile_append_of_pos hvalue,
    List.dropWhile_append_of_pos fun c hc => isSolid_of_mem_mark hc]

/-- An earlier secret has a mark for its value, and the scan goes on behind that value. -/
def Swallows (before : List Char) (y : Label) (written : List Char) : Prop :=
  ∀ behind, strikeSecrets 0 (before ++ (y.mark ++ behind)) =
    written ++ strikeSecrets 0 (behind.dropWhile isSolid)

theorem looksAt_or_swallows (y : Label) (before : List Char) :
    LooksAt before y.mark ∨ ∃ written, Swallows before y written := by
  -- On the length: the scan passes over a struck secret in one go.
  induction hn : before.length using Nat.strongRecOn generalizing before with
  | ind n ih =>
    cases before with
    | nil => exact .inl .start
    | cons c before =>
      cases hfound : secretAt (c :: (before ++ y.mark)) with
      | none =>
        have hlt : before.length < n := by rw [← hn]; exact Nat.lt_succ_self _
        rcases ih _ hlt before rfl with hlooks | ⟨written, hwritten⟩
        · exact .inl (.keep hfound hlooks)
        · refine .inr ⟨c :: written, fun behind => ?_⟩
          rw [List.cons_append, strikeSecrets_of_none (secretAt_mark_congr hfound behind),
            hwritten behind, List.cons_append]
      | some found =>
        obtain ⟨x, rest, hcs, hrest⟩ := exists_label hfound
        rw [← List.append_nil y.mark] at hcs
        obtain ⟨between, hbetween, rfl⟩ := Label.within (List.cons_ne_nil c before) hcs.symm
        obtain ⟨value, later, rfl, hsolid, hlater⟩ := exists_value between
        cases later with
        | nil =>
          -- Nothing ends the value before the mark, so the mark is part of it.
          refine .inr ⟨x.word ++ struckSecret, fun behind => ?_⟩
          rw [hbetween, List.append_nil, List.append_assoc,
            strikeSecrets_over_mark x y hsolid behind]
        | cons b later =>
          -- The value ends before the mark, and the scan goes on from there.
          have hvalue : value ≠ [] := by
            rintro rfl
            exact isCutOff_iff.1 hlater (hasValue_cons.2 (hasValue_cons.1 hrest))
          have hcut (behind : List Char) : IsCutOff (b :: later ++ (y.mark ++ behind)) :=
            fun d hd => hlater d hd
          have hlt : (b :: later).length < n := by
            rw [← hn, hbetween, List.length_append, x.length_text, List.length_append]
            omega
          rcases ih _ hlt _ rfl with hlooks | ⟨written, hwritten⟩
          · rw [hbetween]
            exact .inl (.strike x hvalue hsolid (hcut []) hlooks)
          · refine .inr ⟨x.word ++ struckSecret ++ written, fun behind => ?_⟩
            rw [hbetween, List.append_assoc, List.append_assoc,
              strikeSecrets_value x hvalue hsolid (hcut behind), hwritten behind]
            exact (List.append_assoc _ _ _).symm

/-! ## 7. Paths -/

theorem strikePathsFrom_append_cons {b : Char} (hb : isPathChar b = false)
    (run cs behind : List Char) : strikePathsFrom run (cs ++ b :: behind) =
      strikePathsFrom run cs ++ b :: strikePathsFrom [] behind := by
  induction cs generalizing run with
  | nil => simp only [List.nil_append, strikePathsFrom, hb, Bool.false_eq_true, if_false]
  | cons c cs ih =>
    rw [List.cons_append, strikePathsFrom, strikePathsFrom]
    split
    · exact ih _
    · rw [ih, List.append_assoc, List.cons_append]

theorem strikePath_nil : strikePath [] = [] := by
  decide

/-- Paths do not go on behind a blank. -/
theorem strikePaths_append {cs : List Char} (hne : cs ≠ [])
    (h : Blank.isBlank (cs.getLast hne) = true) (behind : List Char) :
    strikePaths (cs ++ behind) = strikePaths cs ++ strikePaths behind := by
  have hb := isPathChar_of_isBlank h
  have hcs := List.dropLast_concat_getLast hne
  rw [← hcs, List.append_assoc, List.singleton_append, strikePaths, strikePaths, strikePaths,
    strikePathsFrom_append_cons hb, strikePathsFrom_append_cons hb, List.append_assoc,
    List.cons_append]
  exact congrArg (fun list => _ ++ _ :: (list ++ _)) strikePath_nil.symm

theorem strikePath_ne_nil {run : List Char} (h : run ≠ []) : strikePath run ≠ [] := by
  simp only [strikePath]
  split
  · exact List.append_ne_nil_of_right_ne_nil _ (by decide)
  · exact h

theorem strikePathsFrom_ne_nil {run cs : List Char} (h : run ≠ [] ∨ cs ≠ []) :
    strikePathsFrom run cs ≠ [] := by
  induction cs generalizing run with
  | nil => exact strikePath_ne_nil (h.resolve_right fun hnil => hnil rfl)
  | cons c cs ih =>
    rw [strikePathsFrom]
    split
    · exact ih (.inl (List.append_ne_nil_of_right_ne_nil _ (List.cons_ne_nil _ _)))
    · exact List.append_ne_nil_of_right_ne_nil _ (List.cons_ne_nil _ _)

theorem strikeSecrets_ne_nil {cs : List Char} (h : cs ≠ []) : strikeSecrets 0 cs ≠ [] := by
  cases cs with
  | nil => exact absurd rfl h
  | cons c cs =>
    rw [strikeSecrets]
    split
    · rw [List.append_assoc]
      exact List.append_ne_nil_of_right_ne_nil _
        (List.append_ne_nil_of_left_ne_nil (by decide) _)
    · exact List.cons_ne_nil _ _

/-! ## 8. Length -/

theorem truncate_of_lt {cs : List Char} (h : maxBytes < Utf8.widthSum cs) :
    truncate cs = Utf8.fit (maxBytes - Utf8.widthSum cutMark) cs ++ cutMark := by
  rw [truncate, if_neg (Nat.not_le.2 h), Utf8.front_ofList, String.toList_ofList]

/-- Nothing behind a front that is long enough by itself is in a report. -/
theorem truncate_append {front behind : List Char} (h : maxBytes ≤ Utf8.widthSum front)
    (hne : behind ≠ []) :
    truncate (front ++ behind) =
      Utf8.fit (maxBytes - Utf8.widthSum cutMark) front ++ cutMark := by
  obtain ⟨c, cs, rfl⟩ := List.exists_cons_of_ne_nil hne
  have hpos := Utf8.width_pos c
  have hlong : maxBytes < Utf8.widthSum (front ++ c :: cs) := by
    rw [Utf8.widthSum_append, Utf8.widthSum_cons]
    omega
  have hmark : 0 < Utf8.widthSum cutMark := by decide
  have hmax : 0 < maxBytes := by decide
  rw [truncate_of_lt hlong, Utf8.fit_append (by omega)]

/-! ## 9. Values -/

/-- A text that can be the value of a secret. -/
def IsValue (value : List Char) : Prop := value ≠ [] ∧ ∀ c ∈ value, isSolid c = true

instance (value : List Char) : Decidable (IsValue value) :=
  decidable_of_iff (value ≠ [] ∧ value.all isSolid = true) (and_congr Iff.rfl List.all_eq_true)

/-- The value after a label does not show in what leaves. -/
def Hides (before : List Char) (y : Label) : Prop :=
  ∀ value other rest : List Char, IsValue value → IsValue other → IsCutOff rest →
    redact (String.ofList (before ++ (y.text ++ (value ++ rest)))) =
      redact (String.ofList (before ++ (y.text ++ (other ++ rest))))

/-- What leaves, but for its length. -/
def struck (cs : List Char) : List Char := strikePaths (strikeSecrets 0 cs)

theorem redact_ofList (cs : List Char) :
    redact (String.ofList cs) = String.ofList (truncate (struck cs)) := by
  rw [redact, String.toList_ofList, struck]

theorem hides_of_struck (left : List Char → List Char)
    (h : ∀ {value rest : List Char}, IsValue value → IsCutOff rest →
      strikeSecrets 0 (before ++ (y.text ++ (value ++ rest))) = left rest) : Hides before y := by
  intro value other rest hvalue hother hrest
  rw [redact_ofList, redact_ofList, struck, struck, h hvalue hrest, h hother hrest]

theorem hides_of_looksAt (h : LooksAt before y.mark) : Hides before y := by
  obtain ⟨written, hwritten⟩ := h.exists_written
  refine hides_of_struck (fun rest => written ++ (y.word ++ struckSecret ++ strikeSecrets 0 rest))
    fun hvalue hrest => ?_
  rw [← strikeSecrets_value y hvalue.1 hvalue.2 hrest, Label.text, List.append_assoc, hwritten]

section Swallows

variable {written : List Char}

theorem hides_of_swallows (h : Swallows before y written) (hblanks : y.blanks = []) :
    Hides before y := by
  refine hides_of_struck (fun rest => written ++ strikeSecrets 0 rest) fun hvalue hrest => ?_
  rw [Label.text, hblanks, List.append_nil, h, dropWhile_value hvalue.2 hrest]

theorem struck_of_swallows (h : Swallows before y written) (hblanks : y.blanks ≠ [])
    (behind : List Char) :
    struck (before ++ (y.text ++ behind)) = struck (before ++ y.text) ++ struck behind := by
  have hstruck (behind : List Char) : strikeSecrets 0 (before ++ (y.text ++ behind)) =
      (written ++ y.blanks) ++ strikeSecrets 0 behind := by
    obtain ⟨b, blanks, hcons⟩ := List.exists_cons_of_ne_nil hblanks
    have hb : ¬isSolid b = true := by
      rw [isSolid, y.isBlank (c := b) (by rw [hcons]; exact List.mem_cons_self)]
      decide
    have hdrop : (y.blanks ++ behind).dropWhile isSolid = y.blanks ++ behind := by
      rw [hcons]
      exact List.dropWhile_cons_of_neg hb
    rw [Label.text, List.append_assoc, h, hdrop, strikeSecrets_blanks fun c hc => y.isBlank hc,
      List.append_assoc]
  have hfront : strikeSecrets 0 (before ++ y.text) = written ++ y.blanks := by
    rw [← List.append_nil y.text, hstruck []]
    exact List.append_nil _
  -- The front ends in a blank, which no path goes across.
  have hne : written ++ y.blanks ≠ [] := List.append_ne_nil_of_right_ne_nil _ hblanks
  have hlast : Blank.isBlank ((written ++ y.blanks).getLast hne) = true := by
    rw [List.getLast_append_of_ne_nil _ hblanks]
    exact y.isBlank (List.getLast_mem hblanks)
  rw [struck, struck, struck, hstruck, hfront, strikePaths_append hne hlast]

theorem hides_of_long (h : Swallows before y written) (hblanks : y.blanks ≠ [])
    (hlong : maxBytes ≤ Utf8.widthSum (struck (before ++ y.text))) : Hides before y := by
  have hreport {value : List Char} (rest : List Char) (hvalue : IsValue value) :
      truncate (struck (before ++ (y.text ++ (value ++ rest)))) =
        Utf8.fit (maxBytes - Utf8.widthSum cutMark) (struck (before ++ y.text)) ++ cutMark := by
    rw [struck_of_swallows h hblanks]
    refine truncate_append hlong (strikePathsFrom_ne_nil (.inr (strikeSecrets_ne_nil ?_)))
    exact List.append_ne_nil_of_left_ne_nil hvalue.1 _
  intro value other rest hvalue hother _
  rw [redact_ofList, redact_ofList, hreport rest hvalue, hreport rest hother]

/-- Two letters are told apart behind a front that leaves room for one. -/
theorem not_hides_of_short (h : Swallows before y written) (hblanks : y.blanks ≠ [])
    (hshort : Utf8.widthSum (struck (before ++ y.text)) < maxBytes) : ¬Hides before y := by
  have hreport {c : Char} (hc : struck [c] = [c] ∧ Utf8.width c = 1) :
      truncate (struck (before ++ (y.text ++ ([c] ++ [])))) = struck (before ++ y.text) ++ [c] := by
    have hfits : Utf8.widthSum (struck (before ++ y.text) ++ [c]) ≤ maxBytes := by
      rw [Utf8.widthSum_append, Utf8.widthSum_cons, hc.2]
      exact hshort
    rw [struck_of_swallows h hblanks, List.append_nil, hc.1, truncate, if_pos hfits]
  intro hhides
  have hsame := hhides ['x'] ['y'] [] (by decide) (by decide) (by decide)
  rw [redact_ofList, redact_ofList, String.ofList_inj, hreport (by decide), hreport (by decide)]
    at hsame
  exact absurd (List.append_cancel_left hsame) (by decide)

end Swallows

/-- Blanks after a delimiter let the value show where an earlier secret has the label for its value,
unless what stands before fills a report. -/
theorem hides_iff (before : List Char) (y : Label) :
    Hides before y ↔ y.blanks = [] ∨ LooksAt before y.mark ∨
      maxBytes ≤ Utf8.widthSum (struck (before ++ y.text)) := by
  rcases looksAt_or_swallows y before with hlooks | ⟨written, hswallows⟩
  · exact iff_of_true (hides_of_looksAt hlooks) (.inr (.inl hlooks))
  by_cases hblanks : y.blanks = []
  · exact iff_of_true (hides_of_swallows hswallows hblanks) (.inl hblanks)
  constructor
  · intro hhides
    refine .inr (.inr (Nat.le_of_not_lt fun hshort => ?_))
    exact not_hides_of_short hswallows hblanks hshort hhides
  · rintro (hnone | hlooks | hlong)
    · exact absurd hnone hblanks
    · exact hides_of_looksAt hlooks
    · exact hides_of_long hswallows hblanks hlong

/-- The value of an earlier secret ends before the keyword. -/
theorem hides_behind_secret :
    let y : Label := ⟨"PassWord".toList, ':', [' '], by decide, by decide, by decide⟩
    let key : Label := ⟨"key".toList, '=', [], by decide, by decide, by decide⟩
    LooksAt (key.text ++ (['a'] ++ [' '])) y.mark ∧
      redact "key=a PassWord: hunter2 is wrong" = redact "key=a PassWord: other is wrong" := by
  intro y key
  have hblank : LooksAt [' '] y.mark := .keep (by decide) .start
  have hlooks : LooksAt (key.text ++ (['a'] ++ [' '])) y.mark :=
    .strike key (by decide) (List.all_eq_true.1 (by decide)) (by decide) hblank
  have hhides := (hides_iff _ y).2 (.inr (.inl hlooks))
  exact ⟨hlooks, hhides "hunter2".toList "other".toList " is wrong".toList (by decide) (by decide)
    (by decide)⟩

/-- An earlier secret has the keyword for its value. -/
theorem not_hides_behind_key :
    let y : Label := ⟨"password".toList, ':', [' '], by decide, by decide, by decide⟩
    redact "Invalid key: password: hunter2" = "Invalid key=*** hunter2" ∧
      redact "Invalid key: password: other" = "Invalid key=*** other" ∧
      ¬Hides "Invalid key: ".toList y := by
  intro y
  have hfirst : redact "Invalid key: password: hunter2" = "Invalid key=*** hunter2" := by decide
  have hother : redact "Invalid key: password: other" = "Invalid key=*** other" := by decide
  refine ⟨hfirst, hother, fun hhides => ?_⟩
  have hsame := hhides "hunter2".toList "other".toList [] (by decide) (by decide) (by decide)
  have htold : "Invalid key=*** hunter2" = "Invalid key=*** other" :=
    hfirst.symm.trans (Eq.trans hsame hother)
  exact absurd htold (by decide)

end Uplink.Redaction
