/-
ScriptRegistry/Text/Segment.lean

Texts cut at a separator.

A text with n separators has n + 1 segments, some of them perhaps empty; putting
the separators back gives the text.
-/

namespace ScriptRegistry.Text

/-- The pieces between the separators of a text. -/
def segments (separator : Char) : List Char → List (List Char)
  | [] => [[]]
  | c :: cs =>
    if c = separator then [] :: segments separator cs
    else match segments separator cs with
      | [] => [[c]]
      | s :: ss => (c :: s) :: ss

theorem segments_ne_nil (separator : Char) (cs : List Char) : segments separator cs ≠ [] := by
  induction cs with
  | nil => simp [segments]
  | cons c cs ih =>
    rw [segments]
    split
    · simp
    · split <;> simp

/-- Segments put together again. -/
def joinSegments (separator : Char) : List (List Char) → List Char
  | [] => []
  | [s] => s
  | s :: ss => s ++ separator :: joinSegments separator ss

theorem joinSegments_cons (separator : Char) (s : List Char) {ss : List (List Char)}
    (h : ss ≠ []) :
    joinSegments separator (s :: ss) = s ++ separator :: joinSegments separator ss := by
  cases ss with
  | nil => exact absurd rfl h
  | cons _ _ => rfl

/-- Nothing but the separators is lost. -/
theorem joinSegments_segments (separator : Char) (cs : List Char) :
    joinSegments separator (segments separator cs) = cs := by
  induction cs with
  | nil => rfl
  | cons c cs ih =>
    have hne := segments_ne_nil separator cs
    rw [segments]
    split
    · next h => rw [joinSegments_cons _ _ hne, ih, h, List.nil_append]
    · cases hs : segments separator cs with
      | nil => exact absurd hs hne
      | cons s ss =>
        rw [hs] at ih
        cases ss with
        | nil => simpa [joinSegments] using ih
        | cons t ts => simpa [joinSegments] using ih

end ScriptRegistry.Text
