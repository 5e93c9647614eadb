import Uplink.Proofs.Text.Redaction

/-!
# How much of a text is reported

A text leaves whole, but for its secrets, if that fits into a report. Of a longer one leaves what
there is room for beside the mark: the cut is between two characters, at most three bytes before the
room ends.
-/

namespace Uplink.Redaction

/-! ## 1. What is left of a text -/

/-- A text without its secrets, however long it is. -/
def whole (text : String) : String := String.ofList (struck text.toList)

theorem utf8ByteSize_whole (text : String) :
    (whole text).utf8ByteSize = Utf8.widthSum (struck text.toList) :=
  Utf8.utf8ByteSize_ofList _

theorem strikePaths_eq_self {cs : List Char} (h : ∀ c ∈ cs, isPathChar c = false) :
    strikePaths cs = cs := by
  rw [strikePaths]
  induction cs with
  | nil => exact strikePath_nil
  | cons c cs ih =>
    have hc : isPathChar c = false := h c List.mem_cons_self
    have hrest := ih fun b hb => h b (List.mem_cons_of_mem c hb)
    rw [strikePathsFrom, if_neg (Bool.eq_false_iff.1 hc), strikePath_nil, List.nil_append, hrest]

/-- Nothing is struck where there are neither letters nor paths. -/
theorem whole_eq_self {text : String}
    (h : ∀ c ∈ text.toList, (fold c).isLower = false ∧ isPathChar c = false) :
    whole text = text := by
  have hsecrets : strikeSecrets 0 text.toList = text.toList := by
    have hfront := strikeSecrets_of_not_isLower (fun c hc => (h c hc).1) []
    rwa [List.append_nil, strikeSecrets, List.append_nil] at hfront
  rw [whole, struck, hsecrets, strikePaths_eq_self fun c hc => (h c hc).2, String.ofList_toList]

/-! ## 2. What is reported of it -/

/-- The room for a text that is cut. -/
theorem room_eq : maxBytes - Utf8.widthSum cutMark = 486 := by
  decide

theorem redact_eq_whole {text : String} (h : (whole text).utf8ByteSize ≤ maxBytes) :
    redact text = whole text := by
  rw [utf8ByteSize_whole] at h
  show String.ofList (truncate (struck text.toList)) = whole text
  rw [truncate, if_pos h, whole]

theorem redact_eq_front {text : String} (h : maxBytes < (whole text).utf8ByteSize) :
    redact text = Utf8.front (whole text) 486 ++ String.ofList cutMark := by
  rw [utf8ByteSize_whole] at h
  show String.ofList (truncate (struck text.toList)) = _
  rw [truncate_of_lt h, room_eq, whole, Utf8.front_ofList, String.ofList_append]

theorem utf8ByteSize_redact {text : String} (h : maxBytes < (whole text).utf8ByteSize) :
    (redact text).utf8ByteSize = maxBytes - Utf8.stepsBack (whole text) 486 := by
  have hsteps : Utf8.stepsBack (whole text) 486 ≤ 486 := Utf8.stepsBack_le _ _
  have hmark : Utf8.widthSum cutMark = 14 := by decide
  have hmax : maxBytes = 500 := rfl
  rw [redact_eq_front h, String.utf8ByteSize_append, Utf8.utf8ByteSize_front,
    Utf8.utf8ByteSize_ofList, hmark, hmax]
  omega

/-- **A report has at most 500 bytes.** A longer text is cut behind the last character that leaves
room for the mark, and no more than three steps lead to that place from where the room ends. -/
theorem redact_cuts_between_characters (text : String) :
    (redact text).utf8ByteSize ≤ 500 ∧
      ((whole text).utf8ByteSize ≤ 500 → redact text = whole text) ∧
      (500 < (whole text).utf8ByteSize →
        redact text = Utf8.front (whole text) 486 ++ "...[truncated]" ∧
          Utf8.IsLongestFront 486 (Utf8.front (whole text) 486) (whole text) ∧
          Utf8.ofBytes? ((Utf8.bytes (whole text)).take (486 - Utf8.stepsBack (whole text) 486)) =
            some (Utf8.front (whole text) 486) ∧
          Utf8.stepsBack (whole text) 486 ≤ 3 ∧
          (redact text).utf8ByteSize = 500 - Utf8.stepsBack (whole text) 486) := by
  refine ⟨?_, redact_eq_whole, fun h => ⟨redact_eq_front h, ?_, ?_, ?_, utf8ByteSize_redact h⟩⟩
  · rcases Nat.lt_or_ge maxBytes (whole text).utf8ByteSize with hlong | hshort
    · -- The bytes that were stepped over are missing from a full report.
      rw [utf8ByteSize_redact hlong]
      exact Nat.sub_le _ _
    · rw [redact_eq_whole hshort]
      exact hshort
  · exact Utf8.isLongestFront_front 486 (whole text)
  · rw [← Utf8.bytes_front, Utf8.ofBytes?_bytes]
  · exact Utf8.stepsBack_le_three (by omega)

/-- The room ends behind the third byte of a character of four. -/
theorem redact_cuts_between_characters_of_four_bytes :
    let text (n : Nat) := String.ofList (List.replicate 3 '?' ++ List.replicate n '😀')
    500 < (whole (text 150)).utf8ByteSize ∧ Utf8.stepsBack (whole (text 150)) 486 = 3 ∧
      redact (text 150) = text 120 ++ "...[truncated]" := by
  intro text
  have hwhole : whole (text 150) = text 150 := by
    have hmark : (fold '?').isLower = false ∧ isPathChar '?' = false := by decide
    have hsmiley : (fold '😀').isLower = false ∧ isPathChar '😀' = false := by decide
    apply whole_eq_self
    intro c hc
    rw [String.toList_ofList] at hc
    rcases List.mem_append.1 hc with hc | hc
    · rwa [List.eq_of_mem_replicate hc]
    · rwa [List.eq_of_mem_replicate hc]
  have hlong : 500 < (whole (text 150)).utf8ByteSize := by
    rw [hwhole, Utf8.utf8ByteSize_ofList]
    decide +kernel
  have hsteps : Utf8.stepsBack (whole (text 150)) 486 = 3 := by
    rw [hwhole]
    decide +kernel
  have hfront : Utf8.front (whole (text 150)) 486 = text 120 := by
    rw [hwhole, Utf8.front_ofList]
    decide +kernel
  obtain ⟨hreport, -⟩ := (redact_cuts_between_characters (text 150)).2.2 hlong
  rw [hfront] at hreport
  exact ⟨hlong, hsteps, hreport⟩

end Uplink.Redaction
