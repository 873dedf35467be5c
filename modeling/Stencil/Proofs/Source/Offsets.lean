import Mathlib.Data.Prod.Lex
import Mathlib.Data.Set.Function
import Mathlib.Order.Interval.Set.Defs
import Stencil.Proofs.Source.LineStarts
/-
  Offsets and positions, there and back.

  An offset becomes the line it is in and its distance from where that line begins.  The first main statement
  is that this loses nothing: later offsets have later positions, and the position leads back to the offset.
  The lines that begin at or before an offset come first in the index, and the line of the offset is the
  last of them; so it does not matter whether it is counted out or searched for by halves.

  Positions may come from elsewhere, and then need not be places in the text.  The way back looks the line up
  and adds the column, and it asks only whether the sum, as a word, is within the text.  The second main
  statement is that it is right for those positions whose column is not past the end of their line, and for
  those whose sum is past the end of the text; for all others it answers with an offset elsewhere.
-/

namespace Stencil

/-- Positions are ordered by their lines, and on one line by their columns. -/
instance : LE Position where
  le p q := toLex (p.line, p.column) ≤ toLex (q.line, q.column)

theorem Position.le_iff {p q : Position} :
    p ≤ q ↔ p.line < q.line ∨ p.line = q.line ∧ p.column ≤ q.column :=
  Prod.Lex.toLex_le_toLex

namespace Lines

/-! ## The way back -/

/-- Where the line of a position is known, its column is added to the beginning of the line, as a word. -/
theorem offset?_of_begins {text : String} {start : Nat} {p : Position}
    (hbegins : Begins (bytes text) start) (hline : number (bytes text) start = p.line) :
    (ofText text).offset? p = if (start + p.column) % UInt32.size ≤ (bytes text).length then
      some ((start + p.column) % UInt32.size) else none := by
  have hstart : (ofText text).starts[p.line]? = some start := by
    rw [starts_ofText, ← hline]
    exact hbegins.getElem?_starts
  simp only [offset?, hstart, length_ofText]

/-- There is no answer for a line past the last one. -/
theorem offset?_of_count_lt {text : String} {p : Position} (h : (bytes text).count newline < p.line) :
    (ofText text).offset? p = none := by
  have hnone : (ofText text).starts[p.line]? = none := by
    rw [starts_ofText, List.getElem?_eq_none_iff, List.length_cons, length_startsIn]
    omega
  simp only [offset?, hnone]

/-- A place in a line is found again, in a text whose offsets are words. -/
theorem offset?_of_line {text : String} (hsize : (bytes text).length < UInt32.size) {start n : Nat}
    (hbegins : Begins (bytes text) start) (hn : n ≤ (lineFrom (bytes text) start).length) :
    (ofText text).offset? ⟨number (bytes text) start, n⟩ = some (start + n) := by
  have hle := add_le_length_of_le_lineFrom hbegins.le_length hn
  have hword : (start + n) % UInt32.size = start + n := Nat.mod_eq_of_lt (by omega)
  rw [offset?_of_begins hbegins rfl]
  dsimp only
  rw [hword, if_pos hle]

/-! ## From offsets to positions and back -/

/-- Later offsets have later positions. -/
theorem position_mono (text : String) {offset later : Nat} (h : offset ≤ later) :
    (ofText text).position offset ≤ (ofText text).position later := by
  obtain ⟨start, n, hbegins, hn, hsum, hposition⟩ := exists_position text offset
  obtain ⟨start', n', hbegins', hn', hsum', hposition'⟩ := exists_position text later
  have hplaces : start + n ≤ start' + n' := by omega
  have hlines := number_mono (bytes text) hplaces
  rw [number_add hbegins.le_length hn, number_add hbegins'.le_length hn'] at hlines
  rw [hposition, hposition', Position.le_iff]
  rcases Nat.lt_or_eq_of_le hlines with hlt | heq
  · exact .inl hlt
  · -- on one line both columns count from the same beginning
    obtain rfl := hbegins.eq_of_number_eq hbegins' heq
    refine .inr ⟨rfl, ?_⟩
    show n ≤ n'
    omega

/-- The position of an offset: the number of newlines before it, and its distance from where that line
    begins.  The lines up to this one are those that begin at or before the offset.  The position leads back to
    the offset, and later offsets have later positions.  An offset past the end stands for the end. -/
theorem offsets_located {text : String} (hsize : (bytes text).length < UInt32.size) (offset : Nat) :
    let place := min offset (bytes text).length
    let position := (ofText text).position offset
    position.line = ((bytes text).take place).count newline ∧
    (∃ start, Begins (bytes text) start ∧ number (bytes text) start = position.line ∧
      start ≤ place ∧ position.column = place - start) ∧
    (∀ line start, (ofText text).starts[line]? = some start →
      (start ≤ place ↔ line ≤ position.line)) ∧
    (ofText text).offset? position = some place ∧
    ∀ later, offset ≤ later → position ≤ (ofText text).position later := by
  intro place position
  obtain ⟨start, n, hbegins, hn, hsum, hposition⟩ := exists_position text offset
  have hplace : start + n = place := hsum
  have hline : position.line = number (bytes text) start := congrArg Position.line hposition
  have hcolumn : position.column = n := congrArg Position.column hposition
  have hnumber : number (bytes text) place = number (bytes text) start := by
    rw [← hplace]
    exact number_add hbegins.le_length hn
  refine ⟨hline.trans hnumber.symm, ⟨start, hbegins, hline.symm, ?_, ?_⟩, ?parted, ?back, ?later⟩
  · omega
  · omega
  case parted =>
    intro line start' hget
    rw [starts_ofText] at hget
    obtain ⟨hbegins', rfl⟩ := getElem?_starts_iff.1 hget
    rw [hline, ← hnumber]
    exact hbegins'.le_iff_number_le
  case back =>
    show (ofText text).offset? ((ofText text).position offset) = some place
    rw [hposition, offset?_of_line hsize hbegins hn, hplace]
  case later =>
    intro later hlater
    exact position_mono text hlater

/-- In a text with a character of several bytes, an offset on the newline and one past the end. -/
theorem offsets_located_accent :
    (bytes "é\nb").length < UInt32.size ∧
    (ofText "é\nb").starts[1]? = some 3 ∧ ((3 : Nat) ≤ 2 ↔ 1 ≤ ((ofText "é\nb").position 2).line) ∧
    (ofText "é\nb").offset? ((ofText "é\nb").position 2) = some 2 ∧
    (ofText "é\nb").position 2 ≤ (ofText "é\nb").position 9 := by
  have hlength : (bytes "é\nb").length = 4 := by decide
  have hsize : (bytes "é\nb").length < UInt32.size := by
    rw [hlength]
    decide
  have hmin : min 2 (bytes "é\nb").length = 2 := by rw [hlength]; rfl
  have hstart : (ofText "é\nb").starts[1]? = some 3 := by decide
  obtain ⟨-, -, hparted, hback, hlater⟩ := offsets_located hsize 2
  rw [hmin] at hparted hback
  exact ⟨hsize, hstart, hparted 1 3 hstart, hback, hlater 9 (by decide)⟩

/-! ## Positions that are places, and others -/

/-- A position is a place in a text: its line exists, and its column is not past the end of the line. -/
def LiesIn (bs : List UInt8) (p : Position) : Prop :=
  ∃ start, Begins bs start ∧ number bs start = p.line ∧ p.column ≤ (lineFrom bs start).length

/-- The places in a text are the positions of its offsets. -/
theorem liesIn_iff {text : String} {p : Position} :
    LiesIn (bytes text) p ↔ ∃ o, o ≤ (bytes text).length ∧ (ofText text).position o = p := by
  constructor
  · rintro ⟨start, hbegins, hline, hcolumn⟩
    refine ⟨start + p.column, add_le_length_of_le_lineFrom hbegins.le_length hcolumn, ?_⟩
    rw [position_of_line hbegins hcolumn, hline]
  · rintro ⟨o, -, rfl⟩
    obtain ⟨start, n, hbegins, hn, -, hposition⟩ := exists_position text o
    rw [hposition]
    exact ⟨start, hbegins, rfl, hn⟩

/-- Different offsets of a text have different positions. -/
theorem position_injOn (text : String) :
    Set.InjOn (ofText text).position (Set.Iic (bytes text).length) := by
  intro o ho o' ho' heq
  obtain ⟨start, n, hbegins, -, hsum, hposition⟩ := exists_position text o
  obtain ⟨start', n', hbegins', -, hsum', hposition'⟩ := exists_position text o'
  rw [hposition, hposition', Position.mk.injEq] at heq
  obtain ⟨hnumber, rfl⟩ := heq
  obtain rfl := hbegins.eq_of_number_eq hbegins' hnumber
  rw [Nat.min_eq_left ho] at hsum
  rw [Nat.min_eq_left ho'] at hsum'
  exact hsum.symm.trans hsum'

/-- A position that is a place is led back to its offset, and to no other. -/
theorem offset?_eq_some_iff_of_liesIn {text : String} (hsize : (bytes text).length < UInt32.size)
    {p : Position} (h : LiesIn (bytes text) p) (o : Nat) :
    (ofText text).offset? p = some o ↔ o ≤ (bytes text).length ∧ (ofText text).position o = p := by
  obtain ⟨start, hbegins, hline, hcolumn⟩ := h
  have hle := add_le_length_of_le_lineFrom hbegins.le_length hcolumn
  have hposition : (ofText text).position (start + p.column) = p := by
    rw [position_of_line hbegins hcolumn, hline]
  have hanswer : (ofText text).offset? p = some (start + p.column) := by
    have := offset?_of_line hsize hbegins hcolumn
    rw [hline] at this
    exact this
  rw [hanswer, Option.some.injEq]
  constructor
  · rintro rfl
    exact ⟨hle, hposition⟩
  · rintro ⟨ho, heq⟩
    exact position_injOn text hle ho (hposition.trans heq.symm)

/-- The offsets of a text and the places in it correspond.  The way back from a position is right, with the
    offset of a place and no answer for any other position, just when the column is not past the end of
    the line, or the column added to where the line begins, as a word, is past the end of the text; a line
    past the last one is among these. -/
theorem offset?_right_iff {text : String} (hsize : (bytes text).length < UInt32.size) :
    Set.BijOn (ofText text).position (Set.Iic (bytes text).length) {p | LiesIn (bytes text) p} ∧
    ∀ p : Position,
      ((∀ o, (ofText text).offset? p = some o ↔
          o ≤ (bytes text).length ∧ (ofText text).position o = p) ∧
        ((ofText text).offset? p = none ↔ ¬ LiesIn (bytes text) p)) ↔
      ∀ start, Begins (bytes text) start → number (bytes text) start = p.line →
        p.column ≤ (lineFrom (bytes text) start).length ∨
          (bytes text).length < (start + p.column) % UInt32.size := by
  refine ⟨⟨fun o ho => liesIn_iff.2 ⟨o, ho, rfl⟩, position_injOn text, fun p hp => liesIn_iff.1 hp⟩, fun p => ?_⟩
  constructor
  · rintro ⟨hright, -⟩ start hbegins hline
    rcases Nat.lt_or_ge (bytes text).length ((start + p.column) % UInt32.size) with hpast | hwithin
    · exact .inr hpast
    · -- an answer is right only for a place, and there is one line of its number
      have hanswer := offset?_of_begins hbegins hline
      rw [if_pos hwithin] at hanswer
      obtain ⟨start', hbegins', hline', hcolumn'⟩ := liesIn_iff.2 ⟨_, (hright _).1 hanswer⟩
      obtain rfl := hbegins.eq_of_number_eq hbegins' (hline.trans hline'.symm)
      exact .inl hcolumn'
  · intro h
    by_cases hplace : LiesIn (bytes text) p
    · have hright := offset?_eq_some_iff_of_liesIn hsize hplace
      refine ⟨hright, ?_⟩
      obtain ⟨o, ho⟩ := liesIn_iff.1 hplace
      rw [(hright o).2 ho]
      simp [hplace]
    · have hnone : (ofText text).offset? p = none := by
        rcases Nat.lt_or_ge ((bytes text).count newline) p.line with hlast | hexists
        · exact offset?_of_count_lt hlast
        · obtain ⟨start, hbegins, hline⟩ := exists_begins hexists
          rw [offset?_of_begins hbegins hline]
          rcases h start hbegins hline with hcolumn | hpast
          · exact absurd ⟨start, hbegins, hline, hcolumn⟩ hplace
          · exact if_neg (by omega)
      refine ⟨fun o => ?_, by simp [hnone, hplace]⟩
      rw [hnone]
      constructor
      · intro hsome
        cases hsome
      · intro ho
        exact absurd (liesIn_iff.2 ⟨o, ho⟩) hplace

/-- The second line of a text, with a column in it and one past its end. -/
theorem offset?_right_iff_second_line :
    (bytes "a\nbc").length < UInt32.size ∧
    (ofText "a\nbc").position 3 = ⟨1, 1⟩ ∧
    (ofText "a\nbc").offset? ⟨1, 1⟩ = some 3 ∧
    (ofText "a\nbc").offset? ⟨1, 3⟩ = none ∧ ¬ LiesIn (bytes "a\nbc") ⟨1, 3⟩ := by
  have hsize : (bytes "a\nbc").length < UInt32.size := by
    have hlength : (bytes "a\nbc").length = 4 := by decide
    rw [hlength]
    decide
  have hposition : (ofText "a\nbc").position 3 = ⟨1, 1⟩ := by decide
  have hsecond : ∀ start, Begins (bytes "a\nbc") start → number (bytes "a\nbc") start = 1 → start = 2 :=
    fun start hbegins hline => hbegins.eq_of_number_eq (.inr ⟨1, rfl, by decide⟩) (hline.trans (by decide))
  obtain ⟨-, hright⟩ := offset?_right_iff hsize
  obtain ⟨hwithin, -⟩ := (hright ⟨1, 1⟩).2 fun start hbegins hline => by
    obtain rfl := hsecond start hbegins hline
    exact .inl (by decide)
  obtain ⟨-, hpast⟩ := (hright ⟨1, 3⟩).2 fun start hbegins hline => by
    obtain rfl := hsecond start hbegins hline
    exact .inr (by decide)
  have hnone : (ofText "a\nbc").offset? ⟨1, 3⟩ = none := by decide
  exact ⟨hsize, hposition, (hwithin 3).2 ⟨by decide, hposition⟩, hnone, hpast.1 hnone⟩

/-- A column past the end of its line is answered with an offset of the next line, and a column whose sum with
    the beginning of its line is too large for a word with an offset of a line before. -/
theorem offset?_of_other_lines :
    (ofText "a\nb").offset? ⟨0, 3⟩ = some 3 ∧ (ofText "a\nb").position 3 = ⟨1, 1⟩ ∧
    (ofText "a\nb").offset? ⟨1, 4294967295⟩ = some 1 ∧ (ofText "a\nb").position 1 = ⟨0, 1⟩ := by
  decide

end Lines

end Stencil
