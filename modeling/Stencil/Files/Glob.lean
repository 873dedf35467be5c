import Stencil.Files.Path
/-
  Patterns for paths.

  A question mark stands for one byte and a star for any bytes, slashes included; brackets stand for one byte of a
  set, braces for one of several patterns, and a backslash takes the special meaning from the next character.  Two
  stars that make up a whole piece of a path stand for any number of whole pieces.  A pattern matches a
  path when it matches all of its bytes.

  Matching keeps every rest of the path that the parts so far can leave over, each rest once, so its cost grows with
  the length of the pattern times the square of that of the path, however many stars there are.
-/

namespace Stencil

/-- A part of a pattern. -/
inductive GlobPart where
  | literal (c : Char)
  /-- Any one byte. -/
  | any
  /-- Any bytes. -/
  | star
  /-- Any whole pieces at the front of a path. -/
  | piecesFirst
  /-- A slash and anything after it. -/
  | piecesLast
  /-- A slash, or slashes with anything between them. -/
  | piecesBetween
  /-- One byte in a set, or outside of it, given by ranges of characters. -/
  | oneOf (negated : Bool) (ranges : List (Char × Char))
  | alternatives (branches : List (List GlobPart))
deriving Inhabited

/-- A pattern for paths. -/
structure Glob where
  parts : List GlobPart
deriving Inhabited

/-- Why a pattern cannot be read. -/
inductive GlobProblem where
  | unclosedClass
  | invalidRange (first last : Char)
  | unopenedAlternatives
  | unclosedAlternatives
  | danglingEscape
deriving DecidableEq, Repr

/-! ## Matching -/

namespace GlobPart

/-- The bytes of a character. -/
def bytesOf (c : Char) : List UInt8 := (String.singleton c).toUTF8.toList

/-- What is left of some bytes after others at their front. -/
def afterBytes? : List UInt8 → List UInt8 → Option (List UInt8)
  | [], s => some s
  | _ :: _, [] => none
  | a :: as, b :: s => if a == b then afterBytes? as s else none

/-- The byte of a slash. -/
def slash : UInt8 := 47

/-- All rests of some bytes, the longest first. -/
def rests : List UInt8 → List (List UInt8)
  | [] => [[]]
  | b :: s => (b :: s) :: rests s

/-- The rests of some bytes that follow a slash. -/
def restsAfterSlash : List UInt8 → List (List UInt8)
  | [] => []
  | b :: s => if b == slash then s :: restsAfterSlash s else restsAfterSlash s

/-- Ranges of bytes that are in a set when a range of characters is.  The last byte of the first character and
    the first byte of the last one are the ends of a range; the other bytes stand for themselves. -/
def byteRanges (range : Char × Char) : List (UInt8 × UInt8) :=
  let first := bytesOf range.1
  let last := bytesOf range.2
  let alone := fun b : UInt8 => (b, b)
  if range.1 == range.2 then first.map alone
  else
    first.dropLast.map alone ++
      [((first.getLast?).getD 0, (last.head?).getD 0)] ++ (last.drop 1).map alone

/-- Whether a byte is in a set given by ranges of characters. -/
def inRanges (ranges : List (Char × Char)) (b : UInt8) : Bool :=
  ranges.any fun range => (byteRanges range).any fun (first, last) => first ≤ b && b ≤ last

/-- Keep each rest once; rests of the same bytes are told apart by their lengths. -/
def dedup : List (List UInt8) → List (List UInt8)
  | [] => []
  | s :: all =>
    let others := dedup all
    if others.any fun other => other.length == s.length then others else s :: others

mutual

/-- What a part can leave over of some bytes. -/
def leaves (s : List UInt8) : GlobPart → List (List UInt8)
  | .literal c => (afterBytes? (bytesOf c) s).toList
  | .any => (s.tail?).toList
  | .star => rests s
  | .piecesFirst => s :: restsAfterSlash s
  | .piecesLast =>
    match s with
    | b :: s => if b == slash then rests s else []
    | [] => []
  | .piecesBetween =>
    match s with
    | b :: s => if b == slash then s :: restsAfterSlash s else []
    | [] => []
  | .oneOf negated ranges =>
    match s with
    | b :: s => if inRanges ranges b != negated then [s] else []
    | [] => []
  | .alternatives [] => [s]
  | .alternatives branches => leavesOfAny s branches
termination_by structural p => p

/-- What parts, one after the other, can leave over of any of some rests. -/
def leavesAfter (all : List (List UInt8)) : List GlobPart → List (List UInt8)
  | [] => all
  | p :: ps => leavesAfter (dedup (all.flatMap fun s => leaves s p)) ps
termination_by structural ps => ps

/-- What any of several patterns can leave over of some bytes. -/
def leavesOfAny (s : List UInt8) : List (List GlobPart) → List (List UInt8)
  | [] => []
  | branch :: branches => leavesAfter [s] branch ++ leavesOfAny s branches
termination_by structural branches => branches

end

end GlobPart

/-- Whether a pattern matches a path. -/
def Glob.matches (g : Glob) (p : Path) : Bool :=
  (GlobPart.leavesAfter [p.text.toUTF8.toList] g.parts).any List.isEmpty

/-! ## Reading -/

namespace Glob

/-- What has been read of a set of characters. -/
structure ClassReader where
  /-- The ranges, the latest first. -/
  ranges : List (Char × Char) := []
  /-- Whether a hyphen has begun a range. -/
  inRange : Bool := false
  /-- Whether nothing has been read. -/
  first : Bool := true

/-- Add a character to a set, as the end of a range where one was begun. -/
def ClassReader.add (r : ClassReader) (c : Char) : Except GlobProblem ClassReader :=
  match r.inRange, r.ranges with
  | true, (first, _) :: ranges =>
    if c < first then .error (.invalidRange first c)
    else .ok ⟨(first, c) :: ranges, false, false⟩
  | _, ranges => .ok ⟨(c, c) :: ranges, false, false⟩

/-- Read a set up to its closing bracket, which is a member where it comes first. -/
def readClass (negated : Bool) (r : ClassReader) : List Char → Except GlobProblem (GlobPart × List Char)
  | [] => .error .unclosedClass
  | ']' :: cs =>
    if r.first then
      match r.add ']' with
      | .ok r => readClass negated r cs
      | .error e => .error e
    else
      let ranges := if r.inRange then ('-', '-') :: r.ranges else r.ranges
      .ok (.oneOf negated ranges.reverse, cs)
  | c :: cs =>
    if c == '-' && !r.first && !r.inRange then
      readClass negated { r with inRange := true } cs
    else
      match r.add c with
      | .ok r => readClass negated r cs
      | .error e => .error e

theorem length_readClass {negated : Bool} {r : ClassReader} {cs rest : List Char} {p : GlobPart}
    (h : readClass negated r cs = .ok (p, rest)) : rest.length < cs.length := by
  induction cs generalizing r with
  | nil => cases h
  | cons c cs ih =>
    unfold readClass at h
    split at h
    · cases ‹c :: cs = []›
    · next hc =>
      obtain ⟨rfl, rfl⟩ := by simpa using hc
      split at h
      · split at h
        · exact Nat.lt_succ_of_lt (ih h)
        · cases h
      · obtain ⟨_, rfl⟩ := by simpa using h
        simp
    · next hc =>
      obtain ⟨rfl, rfl⟩ := by simpa using hc
      split at h
      · exact Nat.lt_succ_of_lt (ih h)
      · split at h
        · exact Nat.lt_succ_of_lt (ih h)
        · cases h

/-- A group of alternatives that is open: its complete branches, and the parts before the group. -/
structure Group where
  branches : List (List GlobPart)
  before : List GlobPart

/-- What has been read of a pattern: the parts of the current branch, the latest first, the groups around it,
    innermost first, and the last character read. -/
structure Progress where
  parts : List GlobPart := []
  groups : List Group := []
  last : Option Char := none

namespace Progress

/-- Whether a group is open. -/
def inGroup (r : Progress) : Bool := !r.groups.isEmpty

/-- Add a part that was read up to a character. -/
def push (r : Progress) (c : Char) (p : GlobPart) : Progress :=
  { r with parts := p :: r.parts, last := some c }

/-- The next branch of a group. -/
def nextBranch (r : Progress) : Progress :=
  match r.groups with
  | [] => r.push ',' (.literal ',')
  | group :: groups =>
    let group := { group with branches := r.parts.reverse :: group.branches }
    ⟨[], group :: groups, some ','⟩

/-- Whether parts can only match nothing at all. -/
def isVacuous (parts : List GlobPart) : Bool :=
  parts.all fun p =>
    match p with
    | .alternatives [] => true
    | _ => false

/-- Close a group; branches that match nothing at all are left out. -/
def closeGroup (r : Progress) : Except GlobProblem Progress :=
  match r.groups with
  | [] => .error .unopenedAlternatives
  | group :: groups =>
    let branches := (r.parts.reverse :: group.branches).reverse
    let branches := branches.filter fun branch => !isVacuous branch
    .ok ⟨.alternatives branches :: group.before, groups, some '\x7d'⟩

/-- Two stars that stand for whole pieces between two slashes, or after the last one, take the place of the
    slash before them, or join others of their kind. -/
def pushPieces (r : Progress) (c : Char) (p : GlobPart) : Progress :=
  match r.parts with
  | .piecesFirst :: _ => { r with last := some c }
  | .piecesLast :: _ => { r with last := some c }
  | _ :: parts => { r with parts := p :: parts, last := some c }
  | [] => r.push c p

/-- Two stars, before the rest of the pattern: what has been read then, and what is left. -/
def twoStars (r : Progress) (cs : List Char) : Progress × List Char :=
  let plain := ((r.push '*' .star).push '*' .star, cs)
  let beginsPiece := r.last == some '/' || (r.inGroup && (r.last == some ',' || r.last == some '\x7b'))
  match r.parts, cs with
  | [], [] => (r.push '*' .piecesFirst, [])
  | [], '/' :: cs => (r.push '/' .piecesFirst, cs)
  | [], _ => plain
  | _, [] => if beginsPiece then (r.pushPieces '*' .piecesLast, []) else plain
  | _, c :: rest =>
    if !beginsPiece then plain
    else if c == '/' then (r.pushPieces '/' .piecesBetween, rest)
    else if r.inGroup && (c == ',' || c == '\x7d') then (r.pushPieces '*' .piecesLast, cs)
    else plain

theorem length_twoStars_le (r : Progress) (cs : List Char) : (r.twoStars cs).2.length ≤ cs.length := by
  unfold twoStars
  dsimp only
  split <;> (repeat' split) <;> simp

end Progress

/-- Read the parts of a pattern. -/
def readParts (r : Progress) (cs : List Char) : Except GlobProblem Progress :=
  match cs with
  | [] => .ok r
  | '?' :: cs => readParts (r.push '?' .any) cs
  | '*' :: '*' :: cs =>
    have : (r.twoStars cs).2.length < cs.length + 2 :=
      Nat.lt_succ_of_le (Nat.le_succ_of_le (r.length_twoStars_le cs))
    readParts (r.twoStars cs).1 (r.twoStars cs).2
  | '*' :: cs => readParts (r.push '*' .star) cs
  | '[' :: cs =>
    let negated := cs.head? == some '!' || cs.head? == some '^'
    let inside := if negated then cs.tail else cs
    match hc : readClass negated {} inside with
    | .error e => .error e
    | .ok (p, rest) =>
      have : rest.length < cs.length + 1 := by
        have h1 := length_readClass hc
        have h2 : inside.length ≤ cs.length := by
          simp only [inside]
          split <;> simp
        omega
      readParts (r.push ']' p) rest
  | '\x7b' :: cs => readParts ⟨[], ⟨[], r.parts⟩ :: r.groups, some '\x7b'⟩ cs
  | '\x7d' :: cs =>
    match r.closeGroup with
    | .error e => .error e
    | .ok r => readParts r cs
  | ',' :: cs => readParts r.nextBranch cs
  | '\\' :: c :: cs => readParts (r.push c (.literal c)) cs
  | ['\\'] => .error .danglingEscape
  | c :: cs => readParts (r.push c (.literal c)) cs
termination_by cs.length

/-- The pattern that a text describes.  Whole pieces alone match every path. -/
def parse (text : String) : Except GlobProblem Glob :=
  match readParts {} text.toList with
  | .error e => .error e
  | .ok r =>
    if r.inGroup then .error .unclosedAlternatives
    else
      match r.parts with
      | [.piecesFirst] => .ok ⟨[.star]⟩
      | parts => .ok ⟨parts.reverse⟩

end Glob

end Stencil
