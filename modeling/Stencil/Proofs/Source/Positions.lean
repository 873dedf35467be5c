import Mathlib.Data.List.Induction
import Stencil.Source.Lines
/-
  Positions in a text that is known by its pieces.

  Where a text is cut in two, the end of the first piece lies on the line that many newlines of the piece
  count, and as many bytes into it as the piece has after the last of them.

  The lines that begin in the first piece begin at or before its end, and all others begin after it; so the
  line of the offset is found by counting, and it is the last one that begins in the piece.
-/

namespace Stencil.Lines

open Text (byteLength)

/-- What stands after the last newline of a text. -/
def lastLine (cs : List Char) : List Char := (cs.reverse.takeWhile (· != '\n')).reverse

theorem lastLine_concat (cs : List Char) (c : Char) :
    lastLine (cs ++ [c]) = if c = '\n' then [] else lastLine cs ++ [c] := by
  rw [lastLine, List.reverse_append, List.reverse_singleton, List.singleton_append, List.takeWhile_cons]
  by_cases hc : c = '\n'
  · simp [hc]
  · simp [hc, lastLine]

/-! ## Where lines begin -/

theorem startsAfter_append (offset : Nat) (xs ys : List Char) :
    startsAfter offset (xs ++ ys) = startsAfter offset xs ++ startsAfter (offset + byteLength xs) ys := by
  induction xs generalizing offset with
  | nil => rfl
  | cons x xs ih =>
    by_cases hx : x = '\n' <;> simp [startsAfter, hx, ih, Nat.add_assoc]

/-- The lines after the first of a text that begins at an offset begin after the offset, and at the latest
    where the text ends. -/
theorem lt_of_mem_startsAfter {offset start : Nat} {cs : List Char} (h : start ∈ startsAfter offset cs) :
    offset < start ∧ start ≤ offset + byteLength cs := by
  induction cs generalizing offset with
  | nil => exact absurd h List.not_mem_nil
  | cons c cs ih =>
    have hpos := c.utf8Size_pos
    have hmore : start ∈ startsAfter (offset + c.utf8Size) cs →
        offset < start ∧ start ≤ offset + byteLength (c :: cs) := by
      intro hmem
      have hlater := ih hmem
      rw [Text.byteLength_cons]
      omega
    unfold startsAfter at h
    dsimp only at h
    split at h
    · rcases List.mem_cons.1 h with rfl | h
      · rw [Text.byteLength_cons]
        omega
      · exact hmore h
    · exact hmore h

/-- The last line of a text begins as many bytes before its end as there are in it. -/
theorem exists_lastStart (cs : List Char) : ∃ start, (0 :: startsAfter 0 cs)[cs.count '\n']? = some start ∧
    start + byteLength (lastLine cs) = byteLength cs := by
  induction cs using List.reverseRecOn with
  | nil => exact ⟨0, rfl, rfl⟩
  | append_singleton cs c ih =>
    obtain ⟨start, hstart, hlength⟩ := ih
    have hcount : (0 :: startsAfter 0 cs).length = cs.count '\n' + 1 := by
      rw [List.length_cons, length_startsAfter]
    rw [startsAfter_append, lastLine_concat, List.count_append, ← List.cons_append]
    by_cases hc : c = '\n'
    · -- a line begins after the newline, and it is the last one
      refine ⟨byteLength (cs ++ [c]), ?_, ?_⟩
      · rw [List.getElem?_append_right (by simp [hcount, hc])]
        simp [hcount, hc, startsAfter]
      · rw [if_pos hc]
        rfl
    · refine ⟨start, ?_, ?_⟩
      · rw [List.getElem?_append_left (by simp [hcount, hc])]
        simpa [hc] using hstart
      · rw [if_neg hc, Text.byteLength_append, Text.byteLength_append, ← hlength, Nat.add_assoc]

/-! ## Positions -/

/-- Of the lines of a text, those that begin in a front of it begin at or before its end, and no others. -/
theorem countP_starts (before rest : List Char) :
    (0 :: startsAfter 0 (before ++ rest)).countP (· ≤ byteLength before) = before.count '\n' + 1 := by
  have hfront : (startsAfter 0 before).countP (· ≤ byteLength before) = before.count '\n' := by
    rw [← length_startsAfter 0, List.countP_eq_length]
    intro start hstart
    have := (lt_of_mem_startsAfter hstart).2
    exact decide_eq_true (by omega)
  have hrest : (startsAfter (0 + byteLength before) rest).countP (· ≤ byteLength before) = 0 := by
    rw [List.countP_eq_zero]
    intro start hstart
    have := (lt_of_mem_startsAfter hstart).1
    rw [decide_eq_true_eq]
    omega
  have hfirst : decide (0 ≤ byteLength before) = true := decide_eq_true (Nat.zero_le _)
  rw [List.countP_cons, if_pos hfirst, startsAfter_append, List.countP_append, hfront, hrest]

/-- Where a text is cut in two, as many newlines stand before the line, and the column counts the bytes
    since the last of them. -/
theorem position_of_append {text : String} {before rest : List Char} (h : text.toList = before ++ rest) :
    (ofText text).position (byteLength before) = ⟨before.count '\n', byteLength (lastLine before)⟩ := by
  have hmin : min (byteLength before) (byteLength (before ++ rest)) = byteLength before := by
    rw [Text.byteLength_append]
    omega
  obtain ⟨start, hstart, hlength⟩ := exists_lastStart before
  have hline : (0 :: startsAfter 0 (before ++ rest))[before.count '\n']? = some start := by
    rw [startsAfter_append, ← List.cons_append, List.getElem?_append_left]
    · exact hstart
    · rw [List.length_cons, length_startsAfter]
      exact Nat.lt_succ_self _
  simp only [position, ofText, h, hmin, countP_starts, Nat.add_sub_cancel, hline, Option.getD_some]
  rw [Position.mk.injEq]
  omega

end Stencil.Lines
