import Stencil.Source.Span
/-
  Slices of a text that is known by its pieces.

  A text written as `before ++ piece ++ after` has `piece` between the two byte offsets at which it
  begins and ends.  Everything that is said about spans of a source rests on this one fact.
-/

namespace Stencil

namespace Text

theorem byteLength_pos {cs : List Char} (h : cs ≠ []) : 0 < byteLength cs := by
  cases cs with
  | nil => exact absurd rfl h
  | cons c cs =>
    have := c.utf8Size_pos
    rw [byteLength_cons]
    omega

/-- The byte length of a text that begins with `c`, as the two readers of bytes look at it. -/
theorem byteLength_cons_eq_succ (c : Char) (cs : List Char) :
    ∃ n, byteLength (c :: cs) = n + 1 ∧ c.utf8Size ≤ n + 1 ∧ n + 1 - c.utf8Size = byteLength cs := by
  have hpos := c.utf8Size_pos
  refine ⟨byteLength (c :: cs) - 1, ?_, ?_, ?_⟩ <;> rw [byteLength_cons] <;> omega

/-- Dropping the bytes of a front leaves what follows it. -/
theorem dropBytes_append (front rest : List Char) :
    dropBytes (byteLength front) (front ++ rest) = some rest := by
  induction front with
  | nil => cases rest <;> rfl
  | cons c front ih =>
    obtain ⟨n, hn, hle, hrest⟩ := byteLength_cons_eq_succ c front
    rw [hn, List.cons_append, dropBytes, if_pos hle, hrest, ih]

/-- Taking the bytes of a front gives the front. -/
theorem takeBytes_append (front rest : List Char) :
    takeBytes (byteLength front) (front ++ rest) = some front := by
  induction front with
  | nil => cases rest <;> rfl
  | cons c front ih =>
    obtain ⟨n, hn, hle, hrest⟩ := byteLength_cons_eq_succ c front
    rw [hn, List.cons_append, takeBytes, if_pos hle, hrest, ih]
    rfl

/-- What is left when a front was dropped comes right behind that many bytes. -/
theorem dropBytes_eq_some {n : Nat} {cs rest : List Char} (h : dropBytes n cs = some rest) :
    ∃ front, cs = front ++ rest ∧ n = byteLength front := by
  induction cs generalizing n with
  | nil =>
    cases n with
    | zero =>
      obtain rfl := Option.some.inj h
      exact ⟨[], rfl, rfl⟩
    | succ n => cases h
  | cons c cs ih =>
    cases n with
    | zero =>
      obtain rfl := Option.some.inj h
      exact ⟨[], rfl, rfl⟩
    | succ n =>
      unfold dropBytes at h
      split at h
      · obtain ⟨front, rfl, hn⟩ := ih h
        refine ⟨c :: front, rfl, ?_⟩
        rw [byteLength_cons]
        omega
      · cases h

/-- What was taken is a front with that many bytes. -/
theorem takeBytes_eq_some {n : Nat} {cs front : List Char} (h : takeBytes n cs = some front) :
    ∃ rest, cs = front ++ rest ∧ n = byteLength front := by
  induction cs generalizing n front with
  | nil =>
    cases n with
    | zero =>
      obtain rfl := Option.some.inj h
      exact ⟨[], rfl, rfl⟩
    | succ n => cases h
  | cons c cs ih =>
    cases n with
    | zero =>
      obtain rfl := Option.some.inj h
      exact ⟨c :: cs, rfl, rfl⟩
    | succ n =>
      unfold takeBytes at h
      split at h
      · obtain ⟨front, hfront, rfl⟩ := Option.map_eq_some_iff.1 h
        obtain ⟨rest, rfl, hn⟩ := ih hfront
        refine ⟨rest, rfl, ?_⟩
        rw [byteLength_cons]
        omega
      · cases h

/-- The piece between two offsets of a text that is known by its pieces. -/
theorem slice_append (before piece after : List Char) :
    slice (byteLength before) (byteLength before + byteLength piece) (before ++ piece ++ after)
      = some piece := by
  rw [slice, if_pos (Nat.le_add_right _ _), List.append_assoc, dropBytes_append, Option.bind_some,
    Nat.add_sub_cancel_left, takeBytes_append]

/-- A slice is a piece of the text. -/
theorem slice_eq_some {start stop : Nat} {cs piece : List Char} (h : slice start stop cs = some piece) :
    ∃ before after, cs = before ++ piece ++ after ∧ start = byteLength before ∧
      stop = byteLength before + byteLength piece := by
  unfold slice at h
  split at h
  next hle =>
    obtain ⟨behind, hbehind, htaken⟩ := Option.bind_eq_some_iff.1 h
    obtain ⟨before, rfl, hstart⟩ := dropBytes_eq_some hbehind
    obtain ⟨after, rfl, hstop⟩ := takeBytes_eq_some htaken
    exact ⟨before, after, (List.append_assoc _ _ _).symm, hstart, by omega⟩
  next => cases h

end Text

/-- The span of a piece of a source gives that piece. -/
theorem Span.slice_eq_some {source : String} (before after : List Char) {piece : List Char} {s : Span}
    (hs : source.toList = before ++ piece ++ after) (hstart : s.start = Text.byteLength before)
    (hstop : s.stop = s.start + Text.byteLength piece) :
    s.slice source = some (String.ofList piece) := by
  rw [Span.slice, hstop, hstart, hs, Text.slice_append]
  rfl

end Stencil
