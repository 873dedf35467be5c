import Mathlib.Data.List.Basic
import Stencil.Source.Lines
/-
  Where the lines of a text begin, byte by byte.

  Offsets may point into the middle of a character, so what is said about them is said about the bytes of
  the text.  A line begins at the front and behind every newline byte, and reaches to the next one or to the
  end; its number counts the newline bytes before it.  None of this speaks of the index that is built in
  one scan over the characters.

  The main statement is that the index holds just this: its entry of some number is the one place
  where a line with that number begins, and every offset lies in the line that begins last before it.
-/

namespace Stencil.Lines

/-! ## Bytes -/

/-- The byte of a newline. -/
def newline : UInt8 := 10

/-- The bytes of a text. -/
def bytes (text : String) : List UInt8 := text.toUTF8.data.toList

theorem bytes_eq_flatMap (text : String) : bytes text = text.toList.flatMap String.utf8EncodeChar := by
  rw [bytes, String.toUTF8, ← String.utf8Encode_toList, List.utf8Encode, List.data_toByteArray]

theorem length_flatMap_utf8EncodeChar (cs : List Char) :
    (cs.flatMap String.utf8EncodeChar).length = Text.byteLength cs := by
  induction cs with
  | nil => rfl
  | cons c cs ih =>
    rw [List.flatMap_cons, List.length_append, String.length_utf8EncodeChar, ih, Text.byteLength_cons]

theorem length_ofText (text : String) : (ofText text).length = (bytes text).length := by
  rw [bytes_eq_flatMap, length_flatMap_utf8EncodeChar]
  rfl

/-- No other character has the byte of a newline in it. -/
theorem newline_not_mem_utf8EncodeChar {c : Char} (h : c ≠ '\n') :
    newline ∉ String.utf8EncodeChar c := by
  have hcode : c.val.toNat ≠ 10 := by
    intro heq
    exact h (Char.ext (UInt32.toNat_inj.1 heq))
  have hsmall : ∀ n : Nat, n < 256 → n ≠ 10 → newline ≠ UInt8.ofNat n := by
    intro n hn hne heq
    have hnat : newline.toNat = n := by
      rw [heq, UInt8.toNat_ofNat']
      exact Nat.mod_eq_of_lt hn
    exact hne hnat.symm
  unfold String.utf8EncodeChar
  dsimp only
  split
  · -- one byte, which is the code of the character
    simp only [List.mem_singleton]
    exact hsmall _ (by omega) hcode
  · -- the first byte of several is large, and so are the others
    split
    · simp only [List.mem_cons, List.not_mem_nil, or_false, not_or]
      exact ⟨hsmall _ (by omega) (by omega), hsmall _ (by omega) (by omega)⟩
    · split
      · simp only [List.mem_cons, List.not_mem_nil, or_false, not_or]
        exact ⟨hsmall _ (by omega) (by omega), hsmall _ (by omega) (by omega),
          hsmall _ (by omega) (by omega)⟩
      · simp only [List.mem_cons, List.not_mem_nil, or_false, not_or]
        exact ⟨hsmall _ (by omega) (by omega), hsmall _ (by omega) (by omega),
          hsmall _ (by omega) (by omega), hsmall _ (by omega) (by omega)⟩

/-! ## The scan, byte by byte -/

/-- The offsets just behind each newline of bytes that begin at `offset`. -/
def startsIn (offset : Nat) : List UInt8 → List Nat
  | [] => []
  | b :: bs => if b = newline then (offset + 1) :: startsIn (offset + 1) bs else startsIn (offset + 1) bs

theorem startsIn_append (offset : Nat) (xs ys : List UInt8) :
    startsIn offset (xs ++ ys) = startsIn offset xs ++ startsIn (offset + xs.length) ys := by
  induction xs generalizing offset with
  | nil => rfl
  | cons x xs ih =>
    have hoffset : offset + 1 + xs.length = offset + (x :: xs).length := by
      rw [List.length_cons]
      omega
    rw [List.cons_append, startsIn, startsIn, ih, hoffset]
    split <;> rfl

theorem startsIn_of_not_mem {offset : Nat} {bs : List UInt8} (h : newline ∉ bs) :
    startsIn offset bs = [] := by
  induction bs generalizing offset with
  | nil => rfl
  | cons b bs ih =>
    rw [List.mem_cons, not_or] at h
    rw [startsIn, if_neg (Ne.symm h.1)]
    exact ih h.2

theorem length_startsIn (offset : Nat) (bs : List UInt8) :
    (startsIn offset bs).length = bs.count newline := by
  induction bs generalizing offset with
  | nil => rfl
  | cons b bs ih => by_cases hb : b = newline <;> simp [startsIn, hb, ih]

theorem lt_of_mem_startsIn {offset start : Nat} {bs : List UInt8} (h : start ∈ startsIn offset bs) :
    offset < start := by
  induction bs generalizing offset with
  | nil => cases h
  | cons b bs ih =>
    rw [startsIn] at h
    split at h
    · rcases List.mem_cons.1 h with rfl | h
      · exact Nat.lt_succ_self _
      · exact Nat.lt_of_succ_lt (ih h)
    · exact Nat.lt_of_succ_lt (ih h)

/-- As many lines begin in a front of bytes as there are newlines in it. -/
theorem countP_startsIn (offset n : Nat) (bs : List UInt8) :
    (startsIn offset bs).countP (· ≤ offset + n) = (bs.take n).count newline := by
  induction bs generalizing offset n with
  | nil => rw [List.take_nil]; rfl
  | cons b bs ih =>
    cases n with
    | zero =>
      rw [List.take_zero, List.count_nil, List.countP_eq_zero]
      intro start hstart
      have := lt_of_mem_startsIn hstart
      simp only [decide_eq_true_eq]
      omega
    | succ n =>
      have hoffset : offset + (n + 1) = offset + 1 + n := by omega
      have hfirst : decide (offset + 1 ≤ offset + 1 + n) = true := decide_eq_true (by omega)
      rw [startsIn, List.take_succ_cons, hoffset]
      split
      · next hb => rw [List.countP_cons, if_pos hfirst, ih, hb, List.count_cons_self]
      · next hb => rw [ih, List.count_cons_of_ne hb]

/-- The scan over the characters finds what there is among the bytes. -/
theorem startsAfter_eq_startsIn (offset : Nat) (cs : List Char) :
    startsAfter offset cs = startsIn offset (cs.flatMap String.utf8EncodeChar) := by
  induction cs generalizing offset with
  | nil => rfl
  | cons c cs ih =>
    rw [List.flatMap_cons, startsIn_append, String.length_utf8EncodeChar, ← ih]
    by_cases hc : c = '\n'
    · subst hc
      rfl
    · rw [startsIn_of_not_mem (newline_not_mem_utf8EncodeChar hc), startsAfter]
      simp [hc]

theorem starts_ofText (text : String) : (ofText text).starts = 0 :: startsIn 0 (bytes text) := by
  rw [bytes_eq_flatMap, ← startsAfter_eq_startsIn]
  rfl

/-! ## Lines -/

/-- A line begins at an offset: at the front or just behind a newline. -/
def Begins (bs : List UInt8) (start : Nat) : Prop :=
  start = 0 ∨ ∃ i, start = i + 1 ∧ bs[i]? = some newline

/-- The number of the line an offset is in: so many newlines stand before the offset. -/
def number (bs : List UInt8) (offset : Nat) : Nat := (bs.take offset).count newline

/-- What stands from an offset up to the next newline, or up to the end. -/
def lineFrom (bs : List UInt8) (start : Nat) : List UInt8 := (bs.drop start).takeWhile (· != newline)

theorem number_mono (bs : List UInt8) {m n : Nat} (h : m ≤ n) : number bs m ≤ number bs n :=
  (List.take_prefix_take_left h).sublist.count_le newline

theorem number_le_count (bs : List UInt8) (offset : Nat) : number bs offset ≤ bs.count newline :=
  (List.take_sublist offset bs).count_le newline

theorem number_succ {bs : List UInt8} {i : Nat} {b : UInt8} (h : bs[i]? = some b) :
    number bs (i + 1) = number bs i + if b = newline then 1 else 0 := by
  rw [number, number, List.take_add_one, h, Option.toList_some, List.count_append, List.count_singleton]
  simp only [beq_iff_eq]

theorem Begins.number_lt {bs : List UInt8} {start offset : Nat} (h : Begins bs start)
    (hlt : offset < start) : number bs offset < number bs start := by
  rcases h with rfl | ⟨i, rfl, hi⟩
  · omega
  · have hstep := number_succ hi
    have hle := number_mono bs (Nat.le_of_lt_succ hlt)
    rw [if_pos rfl] at hstep
    omega

/-- A line begins at or before an offset if its number is not above that of the line of the offset. -/
theorem Begins.le_iff_number_le {bs : List UInt8} {start offset : Nat} (h : Begins bs start) :
    start ≤ offset ↔ number bs start ≤ number bs offset := by
  constructor
  · exact number_mono bs
  · intro hle
    rcases Nat.lt_or_ge offset start with hlt | hge
    · have := h.number_lt hlt
      omega
    · exact hge

theorem Begins.le_length {bs : List UInt8} {start : Nat} (h : Begins bs start) : start ≤ bs.length := by
  rcases h with rfl | ⟨i, rfl, hi⟩
  · exact Nat.zero_le _
  · obtain ⟨hlt, -⟩ := List.getElem?_eq_some_iff.1 hi
    exact hlt

/-- The index holds the beginning of each line under the number of the line. -/
theorem Begins.getElem?_starts {bs : List UInt8} {start : Nat} (h : Begins bs start) :
    (0 :: startsIn 0 bs)[number bs start]? = some start := by
  rcases h with rfl | ⟨i, rfl, hi⟩
  · rfl
  · obtain ⟨hlt, hget⟩ := List.getElem?_eq_some_iff.1 hi
    have hlength : (bs.take i).length = i := List.length_take_of_le (Nat.le_of_lt hlt)
    have hsplit : bs = bs.take i ++ newline :: bs.drop (i + 1) := by
      rw [← hget, ← List.drop_eq_getElem_cons hlt, List.take_append_drop]
    have hscan : startsIn 0 bs = startsIn 0 (bs.take i) ++ (i + 1) :: startsIn (i + 1) (bs.drop (i + 1)) := by
      conv_lhs => rw [hsplit]
      rw [startsIn_append, hlength, Nat.zero_add, startsIn, if_pos rfl]
    rw [number_succ hi, if_pos rfl, List.getElem?_cons_succ, hscan, number, ← length_startsIn 0,
      List.getElem?_append_right (Nat.le_refl _), Nat.sub_self, List.getElem?_cons_zero]

/-- There is a line of every number up to that of the last one. -/
theorem exists_begins {bs : List UInt8} {line : Nat} (h : line ≤ bs.count newline) :
    ∃ start, Begins bs start ∧ number bs start = line := by
  -- going through the text, the number of the line grows by one at a time
  have hfront : ∀ n ≤ bs.length, line ≤ number bs n → ∃ start, Begins bs start ∧ number bs start = line := by
    intro n
    induction n with
    | zero =>
      intro _ hline
      exact ⟨0, .inl rfl, (Nat.le_zero.1 hline).symm⟩
    | succ n ih =>
      intro hn hline
      rcases Nat.lt_or_ge (number bs n) line with hlt | hge
      · have hget : bs[n]? = some bs[n] := List.getElem?_eq_getElem hn
        have hstep := number_succ hget
        split at hstep
        · next hb => exact ⟨n + 1, .inr ⟨n, rfl, hb ▸ hget⟩, by omega⟩
        · omega
      · exact ih (Nat.le_of_succ_le hn) hge
  refine hfront bs.length (Nat.le_refl _) ?_
  rw [number, List.take_length]
  exact h

/-- The entry of the index under a number is where a line with that number begins. -/
theorem getElem?_starts_iff {bs : List UInt8} {line start : Nat} :
    (0 :: startsIn 0 bs)[line]? = some start ↔ Begins bs start ∧ number bs start = line := by
  constructor
  · intro h
    obtain ⟨hlt, -⟩ := List.getElem?_eq_some_iff.1 h
    rw [List.length_cons, length_startsIn] at hlt
    obtain ⟨start', hbegins, rfl⟩ := exists_begins (Nat.le_of_lt_succ hlt)
    obtain rfl : start' = start := Option.some.inj (hbegins.getElem?_starts.symm.trans h)
    exact ⟨hbegins, rfl⟩
  · rintro ⟨hbegins, rfl⟩
    exact hbegins.getElem?_starts

/-- There is one line of a number. -/
theorem Begins.eq_of_number_eq {bs : List UInt8} {start start' : Nat} (h : Begins bs start)
    (h' : Begins bs start') (hnumber : number bs start = number bs start') : start = start' := by
  have hget := h.getElem?_starts
  rw [hnumber, h'.getElem?_starts] at hget
  exact (Option.some.inj hget).symm

/-! ## The line of an offset -/

/-- An offset is within a line as far as no newline stands between the beginning of the line and it. -/
theorem le_length_takeWhile_iff {bs : List UInt8} {n : Nat} (hn : n ≤ bs.length) :
    n ≤ (bs.takeWhile (· != newline)).length ↔ newline ∉ bs.take n := by
  induction bs generalizing n with
  | nil =>
    obtain rfl : n = 0 := Nat.le_zero.1 hn
    simp
  | cons b bs ih =>
    cases n with
    | zero => simp
    | succ n =>
      rw [List.length_cons, Nat.add_le_add_iff_right] at hn
      by_cases hb : b = newline
      · simp [hb]
      · have hkept : (b != newline) = true := bne_iff_ne.2 hb
        rw [List.takeWhile_cons, if_pos hkept, List.length_cons, Nat.add_le_add_iff_right, ih hn,
          List.take_succ_cons, List.mem_cons, not_or]
        exact (and_iff_right (Ne.symm hb)).symm

theorem add_le_length_of_le_lineFrom {bs : List UInt8} {start n : Nat} (hstart : start ≤ bs.length)
    (h : n ≤ (lineFrom bs start).length) : start + n ≤ bs.length := by
  have hle : (lineFrom bs start).length ≤ (bs.drop start).length :=
    (List.takeWhile_prefix _).length_le
  rw [List.length_drop] at hle
  omega

/-- All offsets up to the end of a line are in the line. -/
theorem number_add {bs : List UInt8} {start n : Nat} (hstart : start ≤ bs.length)
    (h : n ≤ (lineFrom bs start).length) : number bs (start + n) = number bs start := by
  have hn : n ≤ (bs.drop start).length := by
    have := add_le_length_of_le_lineFrom hstart h
    rw [List.length_drop]
    omega
  have hnone : newline ∉ (bs.drop start).take n := (le_length_takeWhile_iff hn).1 h
  rw [number, number, List.take_add, List.count_append, List.count_eq_zero.2 hnone, Nat.add_zero]

/-- Every offset is in a line that begins at or before it. -/
theorem exists_line {bs : List UInt8} {offset : Nat} (h : offset ≤ bs.length) :
    ∃ start n, Begins bs start ∧ n ≤ (lineFrom bs start).length ∧ start + n = offset := by
  obtain ⟨start, hbegins, hline⟩ := exists_begins (number_le_count bs offset)
  have hle : start ≤ offset := hbegins.le_iff_number_le.2 (Nat.le_of_eq hline)
  have hoffset : start + (offset - start) = offset := by omega
  refine ⟨start, offset - start, hbegins, ?_, hoffset⟩
  have hn : offset - start ≤ (bs.drop start).length := by
    rw [List.length_drop]
    omega
  refine (le_length_takeWhile_iff hn).2 ?_
  -- a newline in between would count
  intro hmem
  have hpos : 0 < ((bs.drop start).take (offset - start)).count newline := List.count_pos_iff.2 hmem
  have hsum : number bs offset =
      number bs start + ((bs.drop start).take (offset - start)).count newline := by
    conv_lhs => rw [← hoffset, number, List.take_add, List.count_append]
    rfl
  omega

/-! ## Positions -/

/-- An offset in a line has the number of the line, and as its column the distance to where the line
    begins. -/
theorem position_of_line {text : String} {start n : Nat} (hbegins : Begins (bytes text) start)
    (hn : n ≤ (lineFrom (bytes text) start).length) :
    (ofText text).position (start + n) = ⟨number (bytes text) start, n⟩ := by
  have hle := add_le_length_of_le_lineFrom hbegins.le_length hn
  have hcount : (0 :: startsIn 0 (bytes text)).countP (· ≤ start + n) = number (bytes text) start + 1 := by
    have hscan := countP_startsIn 0 (start + n) (bytes text)
    rw [Nat.zero_add] at hscan
    have hfirst : decide (0 ≤ start + n) = true := decide_eq_true (Nat.zero_le _)
    rw [List.countP_cons, if_pos hfirst, hscan, ← number_add hbegins.le_length hn]
    rfl
  have hmin : min (start + n) (bytes text).length = start + n := Nat.min_eq_left hle
  simp only [position, length_ofText, starts_ofText, hmin, hcount, Nat.add_sub_cancel,
    hbegins.getElem?_starts, Option.getD_some]
  rw [Position.mk.injEq]
  omega

/-- An offset past the end stands for the end. -/
theorem position_min (text : String) (offset : Nat) :
    (ofText text).position (min offset (bytes text).length) = (ofText text).position offset := by
  simp only [position, length_ofText, Nat.min_assoc, Nat.min_self]

/-- Every offset has the position of a place in a line. -/
theorem exists_position (text : String) (offset : Nat) :
    ∃ start n, Begins (bytes text) start ∧ n ≤ (lineFrom (bytes text) start).length ∧
      start + n = min offset (bytes text).length ∧
      (ofText text).position offset = ⟨number (bytes text) start, n⟩ := by
  obtain ⟨start, n, hbegins, hn, hsum⟩ := exists_line (Nat.min_le_right offset (bytes text).length)
  refine ⟨start, n, hbegins, hn, hsum, ?_⟩
  rw [← position_min, ← hsum]
  exact position_of_line hbegins hn

end Stencil.Lines
