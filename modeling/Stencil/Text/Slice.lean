/-
  Texts as lists of characters, measured in bytes.

  Every position in this library is a byte offset into UTF-8 text, while every text that is taken
  apart is a list of characters.  This module holds the bridge between the two: the byte length of a
  list of characters, the part of a text between two byte offsets (which exists only when both fall
  between characters), and the split of a text at the first occurrence of a mark.

  The laws say that nothing is lost: lengths add up, a split puts its mark back between its two
  parts, and a slice is framed by what was dropped and what was left.
-/

namespace Stencil.Text

/-- The number of bytes a text takes in UTF-8. -/
def byteLength : List Char → Nat
  | [] => 0
  | c :: cs => c.utf8Size + byteLength cs

@[simp] theorem byteLength_nil : byteLength [] = 0 := rfl

@[simp] theorem byteLength_cons (c : Char) (cs : List Char) :
    byteLength (c :: cs) = c.utf8Size + byteLength cs := rfl

@[simp] theorem byteLength_append (xs ys : List Char) :
    byteLength (xs ++ ys) = byteLength xs + byteLength ys := by
  induction xs with
  | nil => simp
  | cons x xs ih => simp [ih, Nat.add_assoc]

/-- Leave out the first `n` bytes; there is no answer when byte `n` is not between characters. -/
def dropBytes : Nat → List Char → Option (List Char)
  | 0, cs => some cs
  | _ + 1, [] => none
  | n + 1, c :: cs => if c.utf8Size ≤ n + 1 then dropBytes (n + 1 - c.utf8Size) cs else none
termination_by structural _ cs => cs

/-- Keep the first `n` bytes; there is no answer when byte `n` is not between characters. -/
def takeBytes : Nat → List Char → Option (List Char)
  | 0, _ => some []
  | _ + 1, [] => none
  | n + 1, c :: cs =>
    if c.utf8Size ≤ n + 1 then (takeBytes (n + 1 - c.utf8Size) cs).map (c :: ·) else none
termination_by structural _ cs => cs

/-- The text from byte `start` up to byte `stop`, if both are between characters and in order. -/
def slice (start stop : Nat) (cs : List Char) : Option (List Char) :=
  if start ≤ stop then (dropBytes start cs).bind (takeBytes (stop - start)) else none

/-- What follows `mark` in a text that begins with it. -/
def afterMark : List Char → List Char → Option (List Char)
  | [], cs => some cs
  | _ :: _, [] => none
  | m :: ms, c :: cs => if m = c then afterMark ms cs else none

theorem afterMark_eq_some_iff {mark cs rest : List Char} :
    afterMark mark cs = some rest ↔ cs = mark ++ rest := by
  induction mark generalizing cs with
  | nil => simp [afterMark]
  | cons m ms ih =>
    cases cs with
    | nil => simp [afterMark]
    | cons c cs => by_cases h : m = c <;> simp [afterMark, h, ih, eq_comm]

/-- Split a text at the first occurrence of `mark`: what stands before it and what follows it. -/
def splitAtFirst (mark : List Char) : List Char → Option (List Char × List Char)
  | [] => if mark.isEmpty then some ([], []) else none
  | c :: cs =>
    match afterMark mark (c :: cs) with
    | some rest => some ([], rest)
    | none => (splitAtFirst mark cs).map fun (before, after) => (c :: before, after)

/-- A split loses nothing: the mark stands between its two parts. -/
theorem splitAtFirst_eq_some {mark cs before after : List Char}
    (h : splitAtFirst mark cs = some (before, after)) : cs = before ++ mark ++ after := by
  induction cs generalizing before after with
  | nil =>
    simp only [splitAtFirst] at h
    split at h
    · next hm => simp_all [List.isEmpty_iff]
    · cases h
  | cons c cs ih =>
    simp only [splitAtFirst] at h
    split at h
    · next rest hp =>
      obtain ⟨rfl, rfl⟩ := by simpa using h
      simpa using afterMark_eq_some_iff.1 hp
    · obtain ⟨⟨b, a⟩, hs, hba⟩ := Option.map_eq_some_iff.1 h
      obtain ⟨rfl, rfl⟩ := by simpa using hba
      simp [ih hs]

/-- Whether two texts are equal when the case of the letters A to Z is ignored. -/
def equalIgnoringCase (xs ys : List Char) : Bool := xs.map Char.toLower == ys.map Char.toLower

/-- A name as it is compared where the case of the letters A to Z does not count. -/
def lowerAscii (s : String) : String := String.ofList (s.toList.map Char.toLower)

end Stencil.Text
