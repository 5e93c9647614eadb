/-!
# Levels of a separated text

A topic is a text whose levels are divided by a separator. `split` takes the text apart and
`join` puts it together; `cut` divides at the first separator only. The separator may have any
length. An empty separator stands before, between and after all characters, so that `split`
gives an empty first and last level around the single characters.

The work is done on lists of characters; the functions on `String` wrap it.
-/

namespace Uplink.Levels

/-- Put a character in front of the first level. -/
def extendHead (c : Char) : List (List Char) → List (List Char)
  | [] => [[c]]
  | level :: levels => (c :: level) :: levels

/-- Split at every occurrence of a separator, from left to right and without overlap. The number
counts the characters of a separator already found that are still to be passed over. -/
def splitFrom (sep : List Char) : Nat → List Char → List (List Char)
  | _, [] => [[]]
  | pending + 1, _ :: cs => splitFrom sep pending cs
  | 0, c :: cs =>
    if sep.isPrefixOf (c :: cs) then [] :: splitFrom sep (sep.length - 1) cs
    else extendHead c (splitFrom sep 0 cs)

/-- All levels of a list of characters. There is always at least one. -/
def splitChars (sep cs : List Char) : List (List Char) :=
  match sep with
  | [] => [] :: (cs.map fun c => [c]) ++ [[]]
  | _ :: _ => splitFrom sep 0 cs

/-- What stands before the first separator, and what stands after it. -/
def cutChars (sep : List Char) : List Char → Option (List Char × List Char)
  | [] => if sep.isEmpty then some ([], []) else none
  | c :: cs =>
    if sep.isPrefixOf (c :: cs) then some ([], (c :: cs).drop sep.length)
    else (cutChars sep cs).map fun (before, after) => (c :: before, after)

def split (sep text : String) : List String :=
  (splitChars sep.toList text.toList).map String.ofList

/-- The text before the first separator and the text after it, if there is a separator. -/
def cut (sep text : String) : Option (String × String) :=
  (cutChars sep.toList text.toList).map fun (before, after) =>
    (String.ofList before, String.ofList after)

/-- Levels with the separator between each two. -/
def join (sep : String) (levels : List String) : String :=
  String.intercalate sep levels

/-! ## How the parts fit together -/

@[simp] theorem extendHead_ne_nil (c : Char) (levels : List (List Char)) :
    extendHead c levels ≠ [] := by
  cases levels <;> simp [extendHead]

theorem splitFrom_ne_nil (sep : List Char) (pending : Nat) (cs : List Char) :
    splitFrom sep pending cs ≠ [] := by
  induction cs generalizing pending with
  | nil => cases pending <;> simp [splitFrom]
  | cons c cs ih =>
    cases pending with
    | zero => rw [splitFrom]; split <;> simp
    | succ n => rw [splitFrom]; exact ih n

theorem splitChars_ne_nil (sep cs : List Char) : splitChars sep cs ≠ [] := by
  cases sep with
  | nil => simp [splitChars]
  | cons s sep => exact splitFrom_ne_nil _ _ _

theorem split_ne_nil (sep text : String) : split sep text ≠ [] := by
  simp [split, splitChars_ne_nil]

/-- Cutting loses nothing: the two sides and the separator make up the text. -/
theorem append_of_cutChars {sep cs before after : List Char}
    (h : cutChars sep cs = some (before, after)) : before ++ sep ++ after = cs := by
  induction cs generalizing before after with
  | nil =>
    cases sep with
    | nil => simp [cutChars] at h; simp [h]
    | cons s sep => simp [cutChars] at h
  | cons c cs ih =>
    rw [cutChars] at h
    split at h
    · next hp =>
      obtain ⟨rest, hrest⟩ := List.isPrefixOf_iff_prefix.1 hp
      simp only [Option.some.injEq, Prod.mk.injEq] at h
      obtain ⟨rfl, rfl⟩ := h
      rw [← hrest]; simp
    · obtain ⟨⟨b, a⟩, hba, heq⟩ := Option.map_eq_some_iff.1 h
      simp only [Prod.mk.injEq] at heq
      obtain ⟨rfl, rfl⟩ := heq
      simp [← ih hba]

end Uplink.Levels
