import Stencil.Proofs.Text.Slices
import Stencil.Template.Cursor
/-
  What the operations of a cursor read.

  `c.Reads w d` says that `d` is the cursor `c` after the text `w`: the text comes off what is left, and
  its bytes go onto the position.  Every operation that moves a cursor reads some text, and each law
  below says which; readings put one behind the other read the texts one behind the other.

  A cursor stands on a source when the text before it has as many bytes as its position says.  It then
  stands on it after any reading, and the span of the reading gives back the text that was read.
-/

namespace Stencil

namespace Text

/-- A text does not begin with a character that satisfies `p`. -/
def NotAhead (p : Char → Bool) (cs : List Char) : Prop := ∀ c ∈ cs.head?, p c = false

theorem notAhead_dropWhile (p : Char → Bool) (cs : List Char) : NotAhead p (cs.dropWhile p) := by
  induction cs with
  | nil => intro c hc; cases hc
  | cons d cs ih =>
    rw [List.dropWhile_cons]
    split
    · exact ih
    · next hd =>
      intro c hc
      obtain rfl : d = c := by simpa using hc
      simpa using hd

theorem NotAhead.of_takeWhile {p q : Char → Bool} {cs : List Char} (h : NotAhead p cs) :
    NotAhead p (cs.takeWhile q) := by
  intro c hc
  cases cs with
  | nil => cases hc
  | cons d cs =>
    rw [List.takeWhile_cons] at hc
    split at hc
    · exact h c hc
    · cases hc

/-- What is taken from a text stops where the characters stop. -/
theorem NotAhead.takeWhile_append {p : Char → Bool} {front next : List Char} (hnext : NotAhead p next)
    (hfront : ∀ c ∈ front, p c = true) : (front ++ next).takeWhile p = front := by
  rw [List.takeWhile_append_of_pos hfront]
  cases next with
  | nil => exact List.append_nil front
  | cons d next => rw [List.takeWhile_cons_of_neg (by simp [hnext d rfl]), List.append_nil]

theorem NotAhead.dropWhile_append {p : Char → Bool} {front next : List Char} (hnext : NotAhead p next)
    (hfront : ∀ c ∈ front, p c = true) : (front ++ next).dropWhile p = next := by
  rw [List.dropWhile_append_of_pos hfront]
  cases next with
  | nil => rfl
  | cons d next => exact List.dropWhile_cons_of_neg (by simp [hnext d rfl])

/-- What comes next in a text that goes on is decided by its front. -/
theorem notAhead_append {p : Char → Bool} {front rest : List Char} (hne : front ≠ []) :
    NotAhead p (front ++ rest) ↔ NotAhead p front := by
  cases front with
  | nil => exact absurd rfl hne
  | cons c front => rfl

/-- A mark that is put behind a text occurs there for the first time. -/
def EndsFirst (content mark : List Char) : Prop :=
  ∀ before after, content ++ mark = before ++ mark ++ after → after = []

/-- A split happens at the first occurrence of the mark. -/
theorem endsFirst_of_splitAtFirst {mark cs before after : List Char}
    (h : splitAtFirst mark cs = some (before, after)) : EndsFirst before mark := by
  induction cs generalizing before after with
  | nil =>
    simp only [splitAtFirst] at h
    split at h
    · next hm =>
      intro x y _
      have hmark : mark = [] := by simpa [List.isEmpty_iff] using hm
      obtain ⟨rfl, rfl⟩ : [] = before ∧ [] = after := by simpa using h
      simp_all
    · cases h
  | cons c cs ih =>
    have hsplit := splitAtFirst_eq_some h
    simp only [splitAtFirst] at h
    split at h
    · -- the mark comes at once, and nothing is left for an earlier one
      obtain ⟨rfl, rfl⟩ := by simpa using h
      intro x y hxy
      have := congrArg List.length hxy
      simp only [List.length_append, List.length_nil] at this
      exact List.length_eq_zero_iff.1 (by omega)
    · next hnone =>
      obtain ⟨⟨b, a⟩, hs, hba⟩ := Option.map_eq_some_iff.1 h
      obtain ⟨rfl, rfl⟩ := by simpa using hba
      intro x y hxy
      cases x with
      | nil =>
        -- the mark would come at once, which was just ruled out
        have hahead : c :: cs = mark ++ (y ++ a) := by
          rw [hsplit, hxy, List.nil_append, List.append_assoc]
        rw [afterMark_eq_some_iff.2 hahead] at hnone
        cases hnone
      | cons d x =>
        have htail : b ++ mark = x ++ mark ++ y := by
          simpa using congrArg List.tail hxy
        exact ih hs x y htail

/-- A text in which a mark occurs is split at it. -/
theorem exists_splitAtFirst (mark before after : List Char) :
    ∃ content rest, splitAtFirst mark (before ++ mark ++ after) = some (content, rest) := by
  induction before with
  | nil =>
    cases mark with
    | nil => cases after <;> exact ⟨_, _, rfl⟩
    | cons m ms =>
      have hmark : afterMark (m :: ms) (m :: (ms ++ after)) = some after := afterMark_eq_some_iff.2 rfl
      refine ⟨[], after, ?_⟩
      rw [List.nil_append, List.cons_append, splitAtFirst, hmark]
  | cons c before ih =>
    obtain ⟨content, rest, hsplit⟩ := ih
    rw [List.cons_append, List.cons_append, splitAtFirst, hsplit]
    cases afterMark mark (c :: (before ++ mark ++ after)) with
    | none => exact ⟨_, _, rfl⟩
    | some more => exact ⟨_, _, rfl⟩

/-- Where a mark occurs for the first time the text is split. -/
theorem splitAtFirst_of_endsFirst {content mark : List Char} (h : EndsFirst content mark)
    (hmark : mark ≠ []) (rest : List Char) :
    splitAtFirst mark (content ++ mark ++ rest) = some (content, rest) := by
  induction content with
  | nil =>
    obtain ⟨m, ms, rfl⟩ := List.exists_cons_of_ne_nil hmark
    rw [List.nil_append, List.cons_append, splitAtFirst, ← List.cons_append,
      afterMark_eq_some_iff.2 rfl]
  | cons c content ih =>
    have hnone : afterMark mark (c :: (content ++ mark ++ rest)) = none := by
      rw [Option.eq_none_iff_forall_ne_some]
      intro more hmore
      -- the mark would come at once, and with it nothing of the content
      have hahead : mark <+: c :: content ++ mark := by
        refine List.prefix_of_prefix_length_le ⟨more, (afterMark_eq_some_iff.1 hmore).symm⟩
          (List.prefix_append (c :: content ++ mark) rest) ?_
        rw [List.length_append]
        exact Nat.le_add_left _ _
      obtain ⟨after, hafter⟩ := hahead
      obtain rfl := h [] after hafter.symm
      have hlength := congrArg List.length hafter
      simp only [List.append_nil, List.cons_append, List.length_cons, List.length_append] at hlength
      omega
    have htail : EndsFirst content mark := fun before after heq =>
      h (c :: before) after (by rw [List.cons_append, heq]; rfl)
    rw [List.cons_append, List.cons_append, splitAtFirst, hnone, ih htail]
    rfl

/-- A character occurs first where it has not occurred before. -/
theorem endsFirst_singleton {q : Char} {content : List Char} (h : q ∉ content) : EndsFirst content [q] := by
  intro before after heq
  induction content generalizing before with
  | nil =>
    have hlength := congrArg List.length heq
    simp only [List.nil_append, List.length_append, List.length_singleton] at hlength
    exact List.length_eq_zero_iff.1 (by omega)
  | cons c content ih =>
    obtain ⟨hc, hcontent⟩ := not_or.1 (mt List.mem_cons.2 h)
    cases before with
    | nil => exact absurd (List.cons.inj heq).1.symm hc
    | cons b before => exact ih hcontent before (List.cons.inj heq).2

end Text

namespace Cursor

/-- The cursor `d` is the cursor `c` after the text `w`. -/
structure Reads (c : Cursor) (w : List Char) (d : Cursor) : Prop where
  rest_eq : c.rest = w ++ d.rest
  position_eq : d.position = c.position + Text.byteLength w

namespace Reads

theorem trans {c d e : Cursor} {v w : List Char} (h : c.Reads v d) (h' : d.Reads w e) :
    c.Reads (v ++ w) e := by
  refine ⟨?_, ?_⟩
  · rw [h.rest_eq, h'.rest_eq, List.append_assoc]
  · rw [h'.position_eq, h.position_eq, Text.byteLength_append, Nat.add_assoc]

end Reads

/-! ## The operations -/

theorem reads_takeWhile (c : Cursor) (p : Char → Bool) :
    c.Reads (c.takeWhile p).1 (c.takeWhile p).2 :=
  ⟨(List.takeWhile_append_dropWhile).symm, rfl⟩

theorem all_takeWhile (c : Cursor) (p : Char → Bool) : ∀ d ∈ (c.takeWhile p).1, p d = true :=
  fun _ hd => List.all_eq_true.1 (List.all_takeWhile (l := c.rest)) _ hd

theorem notAhead_takeWhile (c : Cursor) (p : Char → Bool) :
    Text.NotAhead p (c.takeWhile p).2.rest := Text.notAhead_dropWhile p c.rest

/-- A front reaches as far as its characters do. -/
theorem takeWhile_eq {p : Char → Bool} {front next : List Char} (hfront : ∀ ch ∈ front, p ch = true)
    (hnext : Text.NotAhead p next) (position : Nat) :
    takeWhile ⟨position, front ++ next⟩ p = (front, ⟨position + Text.byteLength front, next⟩) := by
  rw [takeWhile]
  dsimp only
  rw [hnext.takeWhile_append hfront, hnext.dropWhile_append hfront]

/-- The blanks a cursor stands at. -/
def blanks (c : Cursor) : List Char := (c.takeWhile Text.isBlank).1

theorem reads_skipBlanks (c : Cursor) : c.Reads c.blanks c.skipBlanks := reads_takeWhile c _

theorem all_blanks (c : Cursor) : ∀ ch ∈ c.blanks, Text.isBlank ch = true := all_takeWhile c _

/-- A blank in front of anything else is skipped alone. -/
theorem skipBlanks_cons {cs : List Char} (h : Text.NotAhead Text.isBlank cs) (position : Nat) :
    skipBlanks ⟨position, ' ' :: cs⟩ = ⟨position + 1, cs⟩ := by
  have hblank : Text.isBlank ' ' = true := rfl
  exact congrArg Prod.snd (takeWhile_eq (List.forall_mem_singleton.2 hblank) h position)

theorem reads_of_consume? {c d : Cursor} {mark : String} (h : c.consume? mark = some d) :
    c.Reads mark.toList d := by
  obtain ⟨rest, hr, rfl⟩ := Option.map_eq_some_iff.1 h
  exact ⟨Text.afterMark_eq_some_iff.1 hr, rfl⟩

theorem consume?_eq_none_iff {c : Cursor} {mark : String} :
    c.consume? mark = none ↔ ∀ rest, c.rest ≠ mark.toList ++ rest := by
  rw [consume?, Option.map_eq_none_iff, Option.eq_none_iff_forall_ne_some]
  exact forall_congr' fun rest => not_congr Text.afterMark_eq_some_iff

/-- A mark does not come next where another character does. -/
theorem consume?_eq_none_of_head {c : Cursor} {mark : String} {d : Char}
    (hmark : mark.toList.head? = some d) (h : c.rest.head? ≠ some d) : c.consume? mark = none := by
  obtain ⟨more, hmore⟩ := List.head?_eq_some_iff.1 hmark
  refine consume?_eq_none_iff.2 fun rest heq => h ?_
  rw [heq, hmore]
  rfl

theorem startsWith_of_rest_eq {c : Cursor} (mark : String) {rest : List Char}
    (h : c.rest = mark.toList ++ rest) : c.startsWith mark = true := by
  rw [startsWith, Text.afterMark_eq_some_iff.2 h]
  rfl

theorem startsWith_iff {c : Cursor} {mark : String} :
    c.startsWith mark = true ↔ ∃ d, c.consume? mark = some d := by
  rw [startsWith, consume?, Option.isSome_iff_exists]
  constructor
  · rintro ⟨rest, hr⟩
    exact ⟨_, by rw [hr]; rfl⟩
  · rintro ⟨d, hd⟩
    obtain ⟨rest, hr, -⟩ := Option.map_eq_some_iff.1 hd
    exact ⟨rest, hr⟩

theorem startsWith_eq_false {c : Cursor} {mark : String} (h : ∀ rest, c.rest ≠ mark.toList ++ rest) :
    c.startsWith mark = false := by
  rw [Bool.eq_false_iff]
  intro hstarts
  obtain ⟨d, hd⟩ := startsWith_iff.1 hstarts
  exact h d.rest (reads_of_consume? hd).rest_eq

theorem startsWith_eq_false_of_head {c : Cursor} {mark : String} {d : Char}
    (hmark : mark.toList.head? = some d) (h : c.rest.head? ≠ some d) : c.startsWith mark = false :=
  startsWith_eq_false (consume?_eq_none_iff.1 (consume?_eq_none_of_head hmark h))

theorem reads_of_through? {c d : Cursor} {mark : String} {before : List Char}
    (h : c.through? mark = some (before, d)) :
    c.Reads (before ++ mark.toList) d ∧ Text.EndsFirst before mark.toList := by
  obtain ⟨⟨b, a⟩, hs, e⟩ := Option.map_eq_some_iff.1 h
  obtain ⟨rfl, rfl⟩ := by simpa using e
  refine ⟨⟨Text.splitAtFirst_eq_some hs, ?_⟩, Text.endsFirst_of_splitAtFirst hs⟩
  rw [Text.byteLength_append, Nat.add_assoc]

/-! ## Standing on a source -/

/-- The text before the cursor, with what is left, makes up the source. -/
def On (source : String) (c : Cursor) : Prop :=
  ∃ before, source.toList = before ++ c.rest ∧ c.position = Text.byteLength before

theorem on_start (source : String) : (start source).On source := ⟨[], rfl, rfl⟩

/-- A cursor at the end has the whole source before it. -/
theorem On.position_of_atEnd {source : String} {c : Cursor} (h : c.On source) (hend : c.atEnd = true) :
    c.position = Text.byteLength source.toList := by
  obtain ⟨before, hsource, hposition⟩ := h
  have hrest : c.rest = [] := List.isEmpty_iff.1 hend
  rw [hsource, hrest, List.append_nil, hposition]

/-- A reading goes on standing on the source. -/
theorem On.of_reads {source : String} {c d : Cursor} {w : List Char} (h : c.On source)
    (hreads : c.Reads w d) : d.On source := by
  obtain ⟨before, hsource, hposition⟩ := h
  refine ⟨before ++ w, ?_, ?_⟩
  · rw [hsource, hreads.rest_eq, List.append_assoc]
  · rw [hreads.position_eq, hposition, Text.byteLength_append]

/-- The span of a reading slices to what was read. -/
theorem On.slice {source : String} {c d : Cursor} {w : List Char} (h : c.On source)
    (hreads : c.Reads w d) :
    (Span.mk c.position d.position).slice source = some (String.ofList w) := by
  obtain ⟨before, hsource, hposition⟩ := h
  refine Span.slice_eq_some before d.rest ?_ hposition hreads.position_eq
  rw [hsource, hreads.rest_eq, List.append_assoc]

end Cursor

end Stencil
