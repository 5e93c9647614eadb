import Uplink.Proofs.Json.Numbers

/-!
# JSON values, there and back

A value that was written is read again, whatever texts and names are in it and however its arrays
and objects are nested, if its numbers are read back and it is not nested too deeply.
-/

namespace Uplink.Json

open Number

/-! ## 1. Texts -/

theorem hexValue?_hexDigit : ∀ n < 16, hexValue? (hexDigit n) = some n := by decide

theorem readCode_control {c : Char} (h : c.toNat < 32) (cs : List Char) :
    readCode true ('0' :: '0' :: hexDigit (c.toNat / 16) :: hexDigit (c.toNat % 16) :: cs) =
      some (c, cs) := by
  have hhex : readHex ('0' :: '0' :: hexDigit (c.toNat / 16) :: hexDigit (c.toNat % 16) :: cs) =
      some (c.toNat, cs) := by
    have hzero : hexValue? '0' = some 0 := by decide
    rw [readHex, hzero, hexValue?_hexDigit _ (by omega), hexValue?_hexDigit _ (by omega)]
    show some (0 * 4096 + 0 * 256 + c.toNat / 16 * 16 + c.toNat % 16, cs) = _
    simp only [Nat.zero_mul, Nat.zero_add, Nat.div_add_mod']
  have hlow : isLowSurrogate c.toNat = false := by simp [isLowSurrogate]; omega
  have hhigh : isHighSurrogate c.toNat = false := by simp [isHighSurrogate]; omega
  rw [readCode, hhex]
  simp [hlow, hhigh, Char.ofNat_toNat]

/-- What a character was written as is read as that character. -/
theorem readText_escape (fuel : Nat) (c : Char) (cs : List Char) :
    readText true (fuel + 1) (escape c ++ cs) =
      (readText true fuel cs).map fun (text, rest) => (c :: text, rest) := by
  have hescape (e : List Char) (he : readEscape true (e ++ cs) = some (c, cs)) :
      readText true (fuel + 1) ('\\' :: (e ++ cs)) =
        (readText true fuel cs).map fun (text, rest) => (c :: text, rest) := by
    rw [readText, if_neg (by decide), if_pos rfl, he]
    simp only [Option.bind_eq_bind, Option.bind_some]
    cases readText true fuel cs <;> rfl
  -- What follows the backslash is one letter, unless it is the code of a control character.
  rw [escape]
  split
  · next h =>
    subst h
    exact hescape ['"'] rfl
  split
  · next h =>
    subst h
    exact hescape ['\\'] rfl
  split
  · next h =>
    subst h
    exact hescape ['b'] rfl
  split
  · next h =>
    subst h
    exact hescape ['t'] rfl
  split
  · next h =>
    subst h
    exact hescape ['n'] rfl
  split
  · next h =>
    subst h
    exact hescape ['f'] rfl
  split
  · next h =>
    subst h
    exact hescape ['r'] rfl
  split
  · next h =>
    exact hescape ['u', '0', '0', hexDigit (c.toNat / 16), hexDigit (c.toNat % 16)]
      (readCode_control h cs)
  · next hquote hbackslash _ _ _ _ _ hcontrol =>
    rw [List.singleton_append, readText, if_neg hquote, if_neg hbackslash, if_neg hcontrol]
    cases readText true fuel cs <;> rfl

theorem readText_flatMap_escape {fuel : Nat} {cs : List Char} (h : cs.length < fuel)
    (rest : List Char) :
    readText true fuel (cs.flatMap escape ++ '"' :: rest) = some (cs, rest) := by
  induction cs generalizing fuel with
  | nil =>
    obtain ⟨fuel, rfl⟩ := Nat.exists_eq_succ_of_ne_zero (Nat.ne_of_gt h)
    rfl
  | cons c cs ih =>
    rw [List.length_cons] at h
    have hpos : fuel ≠ 0 := by omega
    obtain ⟨fuel, rfl⟩ := Nat.exists_eq_succ_of_ne_zero hpos
    rw [List.flatMap_cons, List.append_assoc, readText_escape, ih (by omega)]
    rfl

theorem length_le_flatMap_escape (cs : List Char) : cs.length ≤ (cs.flatMap escape).length := by
  induction cs with
  | nil => exact Nat.le_refl 0
  | cons c cs ih =>
    have hpos : 0 < (escape c).length := by
      rw [escape]
      repeat (first | split | exact Nat.succ_pos _)
    rw [List.flatMap_cons, List.length_append, List.length_cons]
    omega

theorem readString_quoted (s : String) (rest : List Char) :
    readString true (s.toList.flatMap escape ++ '"' :: rest) = some (s, rest) := by
  have hlen := length_le_flatMap_escape s.toList
  have hfuel : s.toList.length < (s.toList.flatMap escape ++ '"' :: rest).length := by
    rw [List.length_append, List.length_cons]
    omega
  rw [readString, readText_flatMap_escape hfuel, Option.map_some]
  exact congrArg (fun text => some (text, rest)) String.ofList_toList

/-! ## 2. Values -/

theorem commaSeparated_cons (part : List Char) {parts : List (List Char)} (h : parts ≠ []) :
    commaSeparated (part :: parts) = part ++ ',' :: commaSeparated parts := by
  obtain ⟨next, parts, rfl⟩ := List.exists_cons_of_ne_nil h
  rfl

theorem head_commaSeparated {c : Char} {part cs : List Char} (h : part = c :: cs)
    (parts : List (List Char)) : ∃ more, commaSeparated (part :: parts) = c :: more := by
  subst h
  cases parts with
  | nil => exact ⟨cs, rfl⟩
  | cons next parts => exact ⟨_, rfl⟩

theorem writeChars_array (items : List Json) :
    writeChars (.array items) = '[' :: commaSeparated (items.map writeChars) ++ [']'] := by
  have hitems : items.attach.map (fun x => x.1.writeChars) = items.map writeChars := by simp
  rw [writeChars, ← hitems]

def memberChars (m : String × Json) : List Char := quoted m.1 ++ ':' :: m.2.writeChars

theorem writeChars_object (members : List (String × Json)) :
    writeChars (.object members) =
      '\x7b' :: commaSeparated (members.map memberChars) ++ ['\x7d'] := by
  have hmembers : members.attach.map (fun x => memberChars x.1) = members.map memberChars := by simp
  rw [writeChars, ← hmembers]
  rfl

/-- A value is read as another, that differs from it in numbers only, and so many arrays and objects
may be open for it. -/
inductive ReadsAs : Nat → Json → Json → Prop where
  | null {depth : Nat} : ReadsAs depth .null .null
  | bool {depth : Nat} (b : Bool) : ReadsAs depth (.bool b) (.bool b)
  | string {depth : Nat} (s : String) : ReadsAs depth (.string s) (.string s)
  | number {depth : Nat} {v w : Json} (h : readNumber true v.writeChars = some (w, [])) :
      ReadsAs depth v w
  | array {depth : Nat} {items : List Json} {f : Json → Json}
      (h : ∀ v ∈ items, ReadsAs depth v (f v)) :
      ReadsAs (depth + 1) (.array items) (.array (items.map f))
  | object {depth : Nat} {members : List (String × Json)} {f : Json → Json}
      (h : ∀ m ∈ members, ReadsAs depth m.2 (f m.2)) :
      ReadsAs (depth + 1) (.object members) (.object (members.map fun m => (m.1, f m.2)))

/-- A value is read back: its numbers are, and so many arrays and objects may be open for it. -/
def ReadsBack (depth : Nat) (v : Json) : Prop := ReadsAs depth v v

namespace ReadsBack

theorem bool {depth : Nat} (b : Bool) : ReadsBack depth (.bool b) := ReadsAs.bool b

theorem string {depth : Nat} (s : String) : ReadsBack depth (.string s) := ReadsAs.string s

theorem number {depth : Nat} {v : Json} (h : readNumber true v.writeChars = some (v, [])) :
    ReadsBack depth v :=
  ReadsAs.number h

theorem object {depth : Nat} {members : List (String × Json)}
    (h : ∀ m ∈ members, ReadsBack depth m.2) : ReadsBack (depth + 1) (.object members) := by
  have hobject : ReadsAs (depth + 1) (.object members)
      (.object (members.map fun m => (m.1, id m.2))) := .object h
  have hsame : (members.map fun m => (m.1, id m.2)) = members := List.map_id members
  rwa [hsame] at hobject

end ReadsBack

theorem endsNumber_nil : EndsNumber [] := by
  rintro c ⟨⟩

theorem endsNumber_cons {c : Char} (h : c.isDigit = false ∧ c ≠ '.' ∧ c ≠ 'e' ∧ c ≠ 'E')
    (rest : List Char) : EndsNumber (c :: rest) :=
  fun _ hd => Option.mem_some.1 hd ▸ h

theorem skipSpace_cons {c : Char} (h : isSpace c = false) (cs : List Char) :
    skipSpace (c :: cs) = c :: cs := by
  rw [skipSpace, List.dropWhile_cons, h, if_neg Bool.false_ne_true]

theorem ne_of_isDigit {c d : Char} (h : c = '-' ∨ c.isDigit = true)
    (hd : d ≠ '-' ∧ d.isDigit = false) : c ≠ d := by
  rintro rfl
  rcases h with h | h
  · exact hd.1 h
  · exact Bool.false_ne_true (hd.2.symm.trans h)

/-- Neither a blank nor the end of an array. -/
theorem ReadsAs.head {depth : Nat} {v w : Json} (h : ReadsAs depth v w) :
    ∃ c cs, v.writeChars = c :: cs ∧ isSpace c = false ∧ c ≠ ']' := by
  cases h with
  | null =>
    rw [writeChars]
    exact ⟨'n', ['u', 'l', 'l'], rfl, by decide, by decide⟩
  | bool b =>
    rw [writeChars]
    cases b with
    | true => exact ⟨'t', ['r', 'u', 'e'], rfl, by decide, by decide⟩
    | false => exact ⟨'f', ['a', 'l', 's', 'e'], rfl, by decide, by decide⟩
  | string s =>
    rw [writeChars]
    exact ⟨'"', _, rfl, by decide, by decide⟩
  | number h =>
    obtain ⟨c, cs, hcs, hc⟩ := head_of_readNumber h
    refine ⟨c, cs, hcs, ?_, ne_of_isDigit hc (by decide)⟩
    have hne (d : Char) (hd : d ≠ '-' ∧ d.isDigit = false) : (c == d) = false :=
      beq_false_of_ne (ne_of_isDigit hc hd)
    rw [isSpace, hne ' ' (by decide), hne '\t' (by decide), hne '\n' (by decide),
      hne '\r' (by decide)]
    rfl
  | array h =>
    rw [writeChars_array]
    exact ⟨'[', _, rfl, by decide, by decide⟩
  | object h =>
    rw [writeChars_object]
    exact ⟨'\x7b', _, rfl, by decide, by decide⟩

/-- What begins like a number is read as one. -/
theorem readValue_number {c : Char} (h : c = '-' ∨ c.isDigit = true) (fuel depth : Nat)
    (cs : List Char) :
    readValue true (fuel + 1) depth (c :: cs) = readNumber true (c :: cs) := by
  have hne (d : Char) (hd : d ≠ '-' ∧ d.isDigit = false) : c ≠ d := ne_of_isDigit h hd
  have hspace : isSpace c = false := by
    have hbeq (d : Char) (hd : d ≠ '-' ∧ d.isDigit = false) : (c == d) = false :=
      beq_false_of_ne (hne d hd)
    rw [isSpace, hbeq ' ' (by decide), hbeq '\t' (by decide), hbeq '\n' (by decide),
      hbeq '\r' (by decide)]
    rfl
  rw [readValue.eq_def]
  simp only [skipSpace_cons hspace]
  split
  · next heq => exact absurd (List.cons.inj heq).1 (hne 'n' (by decide))
  · next heq => exact absurd (List.cons.inj heq).1 (hne 't' (by decide))
  · next heq => exact absurd (List.cons.inj heq).1 (hne 'f' (by decide))
  · next heq => exact absurd (List.cons.inj heq).1 (hne '"' (by decide))
  · next heq => exact absurd (List.cons.inj heq).1 (hne '[' (by decide))
  · next heq => exact absurd (List.cons.inj heq).1 (hne '\x7b' (by decide))
  · rfl

/-- A value is read with fuel for so many characters, whatever follows it. -/
def Reads (depth : Nat) (v w : Json) : Prop :=
  ∀ (fuel : Nat) (rest : List Char), 2 * v.writeChars.length < fuel → EndsNumber rest →
    readValue true fuel depth (v.writeChars ++ rest) = some (w, rest)

theorem readItems_commaSeparated {depth fuel : Nat} {items : List Json} {f : Json → Json}
    (hne : items ≠ []) (h : ∀ v ∈ items, Reads depth v (f v))
    (hfuel : 2 * (commaSeparated (items.map writeChars)).length + 1 < fuel) (rest : List Char) :
    readItems true fuel depth (commaSeparated (items.map writeChars) ++ ']' :: rest) =
      some (items.map f, rest) := by
  -- One unit of fuel goes for each item, and the comma behind it pays for that.
  induction items generalizing fuel with
  | nil => exact absurd rfl hne
  | cons v items ih =>
    obtain ⟨hv, hitems⟩ := List.forall_mem_cons.1 h
    obtain ⟨fuel, rfl⟩ : ∃ n, fuel = n + 1 := ⟨fuel - 1, by omega⟩
    by_cases hlast : items = []
    · subst hlast
      rw [List.map_singleton, commaSeparated] at hfuel ⊢
      rw [readItems, hv fuel (']' :: rest) (by omega) (endsNumber_cons (by decide) rest)]
      rfl
    · rw [List.map_cons, commaSeparated_cons _ (by simpa using hlast)] at hfuel ⊢
      rw [List.length_append, List.length_cons] at hfuel
      have hmore : readItems true fuel depth
          (commaSeparated (items.map writeChars) ++ ']' :: rest) = some (items.map f, rest) :=
        ih hlast hitems (by omega)
      rw [List.append_assoc, List.cons_append, readItems,
        hv fuel _ (by omega) (endsNumber_cons (by decide) _)]
      show (readItems true fuel depth (commaSeparated (items.map writeChars) ++ ']' :: rest) >>=
        fun p => some (f v :: p.1, p.2)) = _
      rw [hmore]
      rfl

theorem readName_quoted (name : String) (rest : List Char) :
    readMembers.readName true (quoted name ++ ':' :: rest) = some (name, rest) := by
  have htext : quoted name ++ ':' :: rest =
      '"' :: (name.toList.flatMap escape ++ '"' :: (':' :: rest)) := by
    simp [quoted]
  rw [htext]
  show (readString true (name.toList.flatMap escape ++ '"' :: (':' :: rest)) >>= _) = _
  rw [readString_quoted]
  rfl

theorem readMembers_commaSeparated {depth fuel : Nat} {members : List (String × Json)}
    {f : Json → Json} (hne : members ≠ []) (h : ∀ m ∈ members, Reads depth m.2 (f m.2))
    (hfuel : 2 * (commaSeparated (members.map memberChars)).length + 1 < fuel)
    (rest : List Char) :
    readMembers true fuel depth (commaSeparated (members.map memberChars) ++ '\x7d' :: rest) =
      some (members.map fun m => (m.1, f m.2), rest) := by
  -- By induction on the members. Each of them takes fuel for its own characters, which are more
  -- than those of its value.
  induction members generalizing fuel with
  | nil => exact absurd rfl hne
  | cons m members ih =>
    obtain ⟨hm, hmembers⟩ := List.forall_mem_cons.1 h
    obtain ⟨fuel, rfl⟩ : ∃ n, fuel = n + 1 := ⟨fuel - 1, by omega⟩
    have hvalue : m.2.writeChars.length < (memberChars m).length := by
      rw [memberChars, List.length_append, List.length_cons]
      omega
    by_cases hlast : members = []
    · subst hlast
      rw [List.map_singleton, commaSeparated] at hfuel ⊢
      rw [memberChars, List.append_assoc, List.cons_append, readMembers, readName_quoted]
      simp only [Option.bind_eq_bind, Option.bind_some]
      rw [hm fuel ('\x7d' :: rest) (by omega) (endsNumber_cons (by decide) rest)]
      rfl
    · rw [List.map_cons, commaSeparated_cons _ (by simpa using hlast)] at hfuel ⊢
      rw [List.length_append, List.length_cons] at hfuel
      have hmore : readMembers true fuel depth
          (commaSeparated (members.map memberChars) ++ '\x7d' :: rest) =
            some (members.map fun m => (m.1, f m.2), rest) :=
        ih hlast hmembers (by omega)
      rw [memberChars, List.append_assoc, List.append_assoc, List.cons_append, List.cons_append,
        readMembers, readName_quoted]
      simp only [Option.bind_eq_bind, Option.bind_some]
      rw [hm fuel _ (by omega) (endsNumber_cons (by decide) _)]
      show (readMembers true fuel depth
        (commaSeparated (members.map memberChars) ++ '\x7d' :: rest) >>=
          fun p => some ((m.1, f m.2) :: p.1, p.2)) = _
      rw [hmore]
      rfl

theorem readValue_array {c : Char} (hspace : isSpace c = false) (hne : c ≠ ']')
    (fuel depth : Nat) (cs : List Char) :
    readValue true (fuel + 1) (depth + 1) ('[' :: c :: cs) =
      (readItems true fuel depth (c :: cs)).map fun p => (array p.1, p.2) := by
  have hopen : isSpace '[' = false := rfl
  rw [readValue.eq_def]
  simp only [skipSpace_cons hopen, skipSpace_cons hspace, if_neg (Nat.succ_ne_zero depth)]
  split
  · next heq => exact absurd (List.cons.inj heq).1 hne
  · rfl

theorem readValue_object (fuel depth : Nat) (cs : List Char) :
    readValue true (fuel + 1) (depth + 1) ('\x7b' :: '"' :: cs) =
      (readMembers true fuel depth ('"' :: cs)).map fun p => (object p.1, p.2) := by
  rw [readValue]
  rfl

theorem exists_eq_succ {fuel n : Nat} (h : n < fuel) : ∃ m, fuel = m + 1 := ⟨fuel - 1, by omega⟩

theorem reads_string (depth : Nat) (s : String) : Reads depth (.string s) (.string s) := by
  intro fuel rest hfuel _
  obtain ⟨fuel, rfl⟩ := exists_eq_succ hfuel
  have htext : quoted s ++ rest = '"' :: (s.toList.flatMap escape ++ '"' :: rest) := by
    simp [quoted]
  rw [writeChars, htext, readValue]
  show (readString true (s.toList.flatMap escape ++ '"' :: rest)).map _ = _
  rw [readString_quoted]
  rfl

theorem reads_array {depth : Nat} {items : List Json} {f : Json → Json}
    (has : ∀ v ∈ items, ReadsAs depth v (f v)) (h : ∀ v ∈ items, Reads depth v (f v)) :
    Reads (depth + 1) (.array items) (.array (items.map f)) := by
  intro fuel rest hfuel _
  obtain ⟨fuel, rfl⟩ := exists_eq_succ hfuel
  rw [writeChars_array] at hfuel ⊢
  cases items with
  | nil =>
    show readValue true (fuel + 1) _ ('[' :: ']' :: rest) = _
    rw [readValue]
    rfl
  | cons v items =>
    rw [List.length_append, List.length_cons, List.length_singleton] at hfuel
    have hread : readItems true fuel depth
        (commaSeparated ((v :: items).map writeChars) ++ ']' :: rest) =
          some ((v :: items).map f, rest) :=
      readItems_commaSeparated (List.cons_ne_nil v items) h (by omega) rest
    obtain ⟨c, cs, hcs, hspace, hne⟩ := (has v List.mem_cons_self).head
    obtain ⟨more, hmore⟩ := head_commaSeparated hcs (items.map writeChars)
    rw [List.map_cons, hmore] at hread ⊢
    rw [List.append_assoc, List.cons_append, List.cons_append, readValue_array hspace hne]
    exact congrArg (Option.map _) hread

theorem reads_object {depth : Nat} {members : List (String × Json)} {f : Json → Json}
    (h : ∀ m ∈ members, Reads depth m.2 (f m.2)) :
    Reads (depth + 1) (.object members) (.object (members.map fun m => (m.1, f m.2))) := by
  intro fuel rest hfuel _
  obtain ⟨fuel, rfl⟩ := exists_eq_succ hfuel
  rw [writeChars_object] at hfuel ⊢
  cases members with
  | nil =>
    show readValue true (fuel + 1) _ ('\x7b' :: '\x7d' :: rest) = _
    rw [readValue]
    rfl
  | cons m members =>
    rw [List.length_append, List.length_cons, List.length_singleton] at hfuel
    have hread : readMembers true fuel depth
        (commaSeparated ((m :: members).map memberChars) ++ '\x7d' :: rest) =
          some ((m :: members).map fun m => (m.1, f m.2), rest) :=
      readMembers_commaSeparated (List.cons_ne_nil m members) h (by omega) rest
    -- The first member begins with the quote of its name.
    have hquote : memberChars m = '"' :: _ := rfl
    obtain ⟨more, hmore⟩ := head_commaSeparated hquote (members.map memberChars)
    rw [List.map_cons, hmore] at hread ⊢
    rw [List.append_assoc, List.cons_append, List.cons_append, readValue_object]
    exact congrArg (Option.map _) hread

theorem ReadsAs.reads {depth : Nat} {v w : Json} (h : ReadsAs depth v w) : Reads depth v w := by
  induction h with
  | null =>
    intro fuel rest hfuel _
    obtain ⟨fuel, rfl⟩ := exists_eq_succ hfuel
    rw [writeChars]
    show readValue true (fuel + 1) _ ('n' :: 'u' :: 'l' :: 'l' :: rest) = _
    rw [readValue]
    rfl
  | bool b =>
    intro fuel rest hfuel _
    obtain ⟨fuel, rfl⟩ := exists_eq_succ hfuel
    rw [writeChars]
    cases b with
    | true =>
      show readValue true (fuel + 1) _ ('t' :: 'r' :: 'u' :: 'e' :: rest) = _
      rw [readValue]
      rfl
    | false =>
      show readValue true (fuel + 1) _ ('f' :: 'a' :: 'l' :: 's' :: 'e' :: rest) = _
      rw [readValue]
      rfl
  | string s => exact reads_string _ s
  | number h =>
    intro fuel rest hfuel hrest
    obtain ⟨fuel, rfl⟩ := exists_eq_succ hfuel
    obtain ⟨c, cs, hcs, hc⟩ := head_of_readNumber h
    rw [hcs, List.cons_append, readValue_number hc, ← List.cons_append, ← hcs,
      isLocal_readNumber true h hrest]
    rfl
  | array h ih => exact reads_array h ih
  | object h ih => exact reads_object ih

theorem read_write_of_readsAs {v w : Json} (h : ReadsAs maxDepth v w) : read v.write = some w := by
  have hread := h.reads (fuelFor v.writeChars) [] (by rw [fuelFor]; omega) endsNumber_nil
  rw [List.append_nil] at hread
  rw [read, write, String.toList_ofList, readChars, hread]
  rfl

/-- **A value that was written is read again.** -/
theorem read_write {v : Json} (h : ReadsBack maxDepth v) : read v.write = some v :=
  read_write_of_readsAs h

end Uplink.Json
