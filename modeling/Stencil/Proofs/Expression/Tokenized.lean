import Stencil.Proofs.Expression.Numerals
import Stencil.Proofs.Expression.QuotedBodies
import Stencil.Proofs.Text.Slices
/-
  The tokens of a whole expression.

  A text is read from its front: gaps are skipped, and at every other place the longest lexeme is taken.
  The relation `Scans` says so of a part of a text, without reference to the reader, and the reader is
  shown to follow it up to the end of the text or up to the place it refuses.  What is said about the ranges
  of the tokens then holds of every scan.
-/

namespace Stencil

open Text (byteLength)

namespace Token

/-! ## One token -/

/-- No token can be taken at the front of a text: no lexeme begins it, or the longest one is a whole number
    above the largest word. -/
def Refused (cs : List Char) : Prop :=
  (∀ form w t, Spells form w t → ¬ w <+: cs) ∨
    ∃ ds, Longest cs ds none ∧ Digits ds ∧ Int64.maxValue.toInt < Decimal.digitsValue ds

/-- A lexeme that stands for no token is a number, and too large. -/
theorem refused_of_longest {cs w : List Char} (h : Longest cs w none) : Refused cs := by
  obtain ⟨form, hspells⟩ := h.spells
  cases hspells with
  | tooLarge hdigits hlarge => exact .inr ⟨w, h, hdigits, hlarge⟩

/-- The longest lexeme at the front of a text is taken, and where there is none, or none that stands for a
    token, the text is refused. -/
theorem read_spec (c : Char) (rest : List Char) :
    match read c rest with
    | .ok (t, rest') => ∃ w, c :: rest = w ++ rest' ∧ Longest (c :: rest) w (some t)
    | .error _ => Refused (c :: rest) := by
  fun_cases read c rest with
  | case1 hname => exact ⟨_, congrArg (c :: ·) List.takeWhile_append_dropWhile.symm, longest_ident hname⟩
  | case2 hname hdigit =>
    obtain ⟨w, hcut, hlongest⟩ := longest_number rest hdigit
    cases hnumber : number (c :: rest.takeWhile Char.isDigit) (rest.dropWhile Char.isDigit) with
    | ok found =>
      rw [hnumber] at hlongest
      refine ⟨w, ?_, hlongest⟩
      rw [rest_of_number hnumber]
      exact hcut
    | error p =>
      rw [hnumber] at hlongest
      exact refused_of_longest hlongest
  | case3 hname hdigit hquote value rest' hbody => exact longest_quoted (by simpa using hquote) hbody
  | case4 hname hdigit hquote hbody =>
    exact .inl fun form w t hw => not_prefix_of_quotedBody (by simpa using hquote) hbody hw
  | case5 hname hdigit hquote hdollar =>
    rw [Bool.and_eq_true, beq_iff_eq] at hdollar
    obtain ⟨rfl, hstart⟩ := hdollar
    cases rest with
    | nil => cases hstart
    | cons d rest =>
      have hd : isNameStart d = true := hstart
      rw [List.takeWhile_cons_of_pos (isNameChar_of_isNameStart hd),
        List.dropWhile_cons_of_pos (isNameChar_of_isNameStart hd)]
      refine ⟨'$' :: d :: rest.takeWhile isNameChar, ?_, longest_variable hd⟩
      rw [List.cons_append, List.cons_append, List.takeWhile_append_dropWhile]
  | case6 hname hdigit hquote hdollar m rest' hmark => exact longest_of_markAt hmark
  | case7 hname hdigit hquote hdollar hmark =>
    refine .inl fun form w t hw => ?_
    by_cases hc : c = '$'
    · subst hc
      exact not_prefix_of_dollar hw (by simpa using hdollar)
    · refine not_prefix_of_markAt ?_ hmark hw
      rw [formOf, if_neg hname, if_neg hdigit, if_neg hquote, if_neg (by simpa using hc)]

/-! ## What a lexeme stands for -/

theorem table_unique : ∀ a ∈ Mark.table, ∀ b ∈ Mark.table, a.1 = b.1 → a.2 = b.2 := by
  decide +kernel

/-- A text stands for one token at most. -/
theorem Spells.unique {form form' : Form} {w w' : List Char} {t t' : Option Token} (h : Spells form w t)
    (h' : Spells form' w' t') (hw : w = w') : t = t' := by
  have hform : form' = form := by
    obtain ⟨c, more, hcut, hfirst, -⟩ := h.formOf_eq
    have hsame : w' = c :: more := hw.symm.trans hcut
    have hfront : w' <+: c :: more := ⟨[], by rw [hsame, List.append_nil]⟩
    exact (h'.form_eq hfront).trans hfirst
  subst hform
  cases form' with
  | number =>
    subst hw
    by_cases hdigits : Digits w
    · exact (h.number_eq.1 hdigits).trans (h'.number_eq.1 hdigits).symm
    · exact (h.number_eq.2 hdigits).trans (h'.number_eq.2 hdigits).symm
  | name =>
    cases h
    cases h'
    rw [hw]
  | dollar =>
    cases h
    cases h'
    rw [(List.cons.inj hw).2]
  | mark =>
    cases h with
    | mark hmem =>
      cases h' with
      | mark hmem' => exact congrArg _ (congrArg _ (table_unique _ hmem _ hmem' (String.ext hw)))
  | quoted =>
    cases h with
    | @quoted quote body value hquote htext =>
      cases h' with
      | @quoted quote' body' value' hquote' htext' =>
        obtain ⟨rfl, hbody⟩ := List.cons.inj hw
        obtain rfl := List.append_cancel_right hbody
        have hvalue := (htext.quotedBody_eq hquote []).symm.trans (htext'.quotedBody_eq hquote [])
        rw [(Prod.mk.inj (Option.some.inj hvalue)).1]

/-- A text has one longest lexeme at its front. -/
theorem Longest.unique {cs w w' : List Char} {t t' : Option Token} (h : Longest cs w t)
    (h' : Longest cs w' t') : w = w' ∧ t = t' := by
  obtain ⟨form, hspells⟩ := h.spells
  obtain ⟨form', hspells'⟩ := h'.spells
  have hlength : w.length = w'.length :=
    Nat.le_antisymm (h'.longest hspells h.front) (h.longest hspells' h'.front)
  have hw : w = w' :=
    (List.prefix_of_prefix_length_le h.front h'.front (Nat.le_of_eq hlength)).eq_of_length hlength
  exact ⟨hw, hspells.unique hspells' hw⟩

/-- Where the longest lexeme at the front of a text stands for a token, that token is read. -/
theorem Longest.read_eq {c : Char} {tail w rest : List Char} {t : Token} (h : Longest (c :: tail) w (some t))
    (hcut : c :: tail = w ++ rest) : read c tail = .ok (t, rest) := by
  have hread := read_spec c tail
  cases hfound : read c tail with
  | ok found =>
    obtain ⟨t', rest'⟩ := found
    rw [hfound] at hread
    obtain ⟨w', hcut', h'⟩ := hread
    obtain ⟨rfl, ht⟩ := h.unique h'
    obtain rfl := Option.some.inj ht
    rw [hcut'] at hcut
    rw [List.append_cancel_left hcut]
  | error p =>
    rw [hfound] at hread
    rcases hread with hnone | ⟨ds, h', -, -⟩
    · obtain ⟨form, hspells⟩ := h.spells
      exact absurd h.front (hnone _ _ _ hspells)
    · cases (h.unique h').2

end Token

/-! ## The tokens of a text -/

namespace Lexeme

/-- Reading a text whose first byte is at the offset `start` gives some tokens, and comes to the offset
    `stop`, where `rest` is left of the text. -/
inductive Scans : Nat → List Char → List Lexeme → Nat → List Char → Prop where
  | done {start : Nat} {cs : List Char} : Scans start cs [] start cs
  | gap {start stop : Nat} {c : Char} {cs rest : List Char} {ls : List Lexeme}
      (hc : Token.isGap c = true) (h : Scans (start + c.utf8Size) cs ls stop rest) :
      Scans start (c :: cs) ls stop rest
  | lexeme {start stop : Nat} {w cs rest : List Char} {t : Token} {ls : List Lexeme}
      (hw : Token.Longest (w ++ cs) w (some t)) (h : Scans (start + byteLength w) cs ls stop rest) :
      Scans start (w ++ cs) (⟨t, start, w⟩ :: ls) stop rest

theorem readAll_nil (start : Nat) : readAll start [] = .ok [] := by
  rw [readAll]

theorem readAll_gap {c : Char} (hc : Token.isGap c = true) (start : Nat) (cs : List Char) :
    readAll start (c :: cs) = readAll (start + c.utf8Size) cs := by
  rw [readAll, if_pos hc]

theorem readAll_error {c : Char} {tail : List Char} {problem : SyntaxProblem} (hc : Token.isGap c = false)
    (h : Token.read c tail = .error problem) (start : Nat) :
    readAll start (c :: tail) = .error (start, problem) := by
  rw [readAll, if_neg (by simp [hc])]
  split
  next heq =>
    rw [h] at heq
    rw [Except.error.inj heq]
  next heq =>
    rw [h] at heq
    cases heq

theorem readAll_lexeme {w cs : List Char} {t : Token} (hw : Token.Longest (w ++ cs) w (some t))
    (start : Nat) : readAll start (w ++ cs) = (readAll (start + byteLength w) cs).map (⟨t, start, w⟩ :: ·) := by
  obtain ⟨form, hspells⟩ := hw.spells
  obtain ⟨c, more, hcut, -, hgap⟩ := hspells.formOf_eq
  subst hcut
  have hread : Token.read c (more ++ cs) = .ok (t, cs) := hw.read_eq rfl
  rw [List.cons_append, readAll, if_neg (by simp [hgap])]
  split
  next heq =>
    rw [hread] at heq
    cases heq
  next token rest heq =>
    rw [hread] at heq
    obtain ⟨rfl, rfl⟩ := Prod.mk.inj (Except.ok.inj heq)
    have htext : (c :: (more ++ cs)).take ((more ++ cs).length + 1 - cs.length) = c :: more := by
      rw [List.length_append, ← List.cons_append]
      exact List.take_left' (by rw [List.length_cons]; omega)
    dsimp only
    rw [htext]
    cases readAll (start + byteLength (c :: more)) cs <;> rfl

/-- The reader follows every scan. -/
theorem readAll_of_scans {start stop : Nat} {cs rest : List Char} {ls : List Lexeme}
    (h : Scans start cs ls stop rest) : readAll start cs = (readAll stop rest).map (ls ++ ·) := by
  induction h with
  | @done start cs => cases readAll start cs <;> rfl
  | gap hc h ih => rw [readAll_gap hc, ih]
  | @lexeme start stop w cs rest t ls hw h ih =>
    rw [readAll_lexeme hw, ih]
    cases readAll stop rest <;> rfl

/-- Every text can be scanned to its end, or up to a place where no token can be read. -/
theorem exists_scans (start : Nat) : (cs : List Char) → ∃ ls stop rest, Scans start cs ls stop rest ∧
    (rest = [] ∨ ∃ c tail problem, rest = c :: tail ∧ Token.isGap c = false ∧
      Token.read c tail = .error problem)
  | [] => ⟨[], start, [], .done, .inl rfl⟩
  | c :: tail => by
    by_cases hc : Token.isGap c = true
    · obtain ⟨ls, stop, rest, h, hend⟩ := exists_scans (start + c.utf8Size) tail
      exact ⟨ls, stop, rest, .gap hc h, hend⟩
    · have hread := Token.read_spec c tail
      cases hfound : Token.read c tail with
      | error problem =>
        exact ⟨[], start, c :: tail, .done, .inr ⟨c, tail, problem, rfl, by simpa using hc, hfound⟩⟩
      | ok found =>
        obtain ⟨t, next⟩ := found
        rw [hfound] at hread
        obtain ⟨w, hcut, hw⟩ := hread
        have hshorter := Token.length_of_read hfound
        obtain ⟨ls, stop, rest, h, hend⟩ := exists_scans (start + byteLength w) next
        rw [hcut] at hw ⊢
        exact ⟨⟨t, start, w⟩ :: ls, stop, rest, .lexeme hw h, hend⟩
termination_by cs => cs.length
decreasing_by all_goals (rw [List.length_cons]; omega)

/-! ## Where the tokens stand -/

/-- Some tokens make up the part of a text between two offsets: their ranges lie in it, are not empty and
    follow each other, each is the longest lexeme that begins where its range starts, and everything in
    between is a gap. -/
structure Covers (source : List Char) (start stop : Nat) (ls : List Lexeme) : Prop where
  within : ∀ l ∈ ls, start ≤ l.start ∧ l.start < l.stop ∧ l.stop ≤ stop
  ordered : ls.Pairwise fun l l' => l.stop ≤ l'.start
  longest : ∀ l ∈ ls, ∃ before rest, source = before ++ (l.text ++ rest) ∧ l.start = byteLength before ∧
    Token.Longest (l.text ++ rest) l.text (some l.token)
  gaps : ∀ before c after, source = before ++ c :: after → start ≤ byteLength before →
    byteLength before < stop → (∀ l ∈ ls, ¬ (l.start ≤ byteLength before ∧ byteLength before < l.stop)) →
    c ∈ [' ', '\t', '\r', '\n', '\x0c']

theorem Covers.nil (source : List Char) (start : Nat) : Covers source start start [] := by
  refine ⟨?_, .nil, ?_, ?_⟩
  · intro l hl
    cases hl
  · intro l hl
    cases hl
  · intro before c after hsource hstart hstop
    omega

theorem isGap_iff {c : Char} : Token.isGap c = true ↔ c ∈ [' ', '\t', '\r', '\n', '\x0c'] := by
  simp [Token.isGap, or_assoc]

theorem Covers.gap {front cs : List Char} {c : Char} {stop : Nat} {ls : List Lexeme}
    (hc : Token.isGap c = true)
    (h : Covers (front ++ c :: cs) (byteLength front + c.utf8Size) stop ls) :
    Covers (front ++ c :: cs) (byteLength front) stop ls := by
  refine ⟨?_, h.ordered, h.longest, ?_⟩
  · intro l hl
    have hwithin := h.within l hl
    omega
  · intro before d after hsource hstart hstop houtside
    -- what comes first in the part is the gap, anything else stands behind it
    rcases List.append_eq_append_iff.1 hsource with ⟨more, rfl, hrest⟩ | ⟨more, rfl, hrest⟩
    · cases more with
      | nil =>
        obtain ⟨rfl, rfl⟩ := List.cons.inj hrest
        exact isGap_iff.1 hc
      | cons c' more =>
        obtain ⟨rfl, -⟩ := List.cons.inj hrest
        refine h.gaps _ d after hsource ?_ hstop houtside
        simp only [Text.byteLength_append, Text.byteLength_cons]
        omega
    · cases more with
      | nil =>
        obtain ⟨rfl, rfl⟩ := List.cons.inj hrest
        exact isGap_iff.1 hc
      | cons c' more =>
        have hpos := c'.utf8Size_pos
        simp only [Text.byteLength_append, Text.byteLength_cons] at hstart
        omega

theorem Covers.lexeme {front w cs : List Char} {t : Token} {stop : Nat} {ls : List Lexeme}
    (hw : Token.Longest (w ++ cs) w (some t)) (hle : byteLength front + byteLength w ≤ stop)
    (h : Covers (front ++ (w ++ cs)) (byteLength front + byteLength w) stop ls) :
    Covers (front ++ (w ++ cs)) (byteLength front) stop (⟨t, byteLength front, w⟩ :: ls) := by
  have hpos : 0 < byteLength w := by
    obtain ⟨form, hspells⟩ := hw.spells
    obtain ⟨c, more, rfl, -⟩ := hspells.formOf_eq
    exact Text.byteLength_pos (List.cons_ne_nil _ _)
  refine ⟨?_, ?_, ?_, ?_⟩
  · rw [List.forall_mem_cons]
    refine ⟨⟨Nat.le_refl _, Nat.lt_add_of_pos_right hpos, hle⟩, ?_⟩
    intro l hl
    have hwithin := h.within l hl
    omega
  · rw [List.pairwise_cons]
    refine ⟨fun l hl => ?_, h.ordered⟩
    exact (h.within l hl).1
  · rw [List.forall_mem_cons]
    exact ⟨⟨front, cs, rfl, rfl, hw⟩, h.longest⟩
  · intro before d after hsource hstart hstop houtside
    rw [List.forall_mem_cons] at houtside
    refine h.gaps before d after hsource ?_ hstop houtside.2
    have hhere := houtside.1
    simp only [Lexeme.stop] at hhere
    omega

/-- The tokens of a scan make up what was read, and the scan comes to the offset where the rest begins. -/
theorem Scans.covers {start stop : Nat} {cs rest : List Char} {ls : List Lexeme}
    (h : Scans start cs ls stop rest) (front : List Char) (hstart : start = byteLength front) :
    Covers (front ++ cs) start stop ls ∧ ∃ before, front ++ cs = before ++ rest ∧
      stop = byteLength before ∧ start ≤ stop := by
  induction h generalizing front with
  | done => exact ⟨.nil _ _, front, rfl, hstart, Nat.le_refl _⟩
  | @gap start stop c cs rest ls hc h ih =>
    subst hstart
    obtain ⟨hcovers, before, hcut, hstop, hle⟩ := ih (front ++ [c]) (by simp)
    rw [List.append_assoc, List.singleton_append] at hcovers hcut
    exact ⟨hcovers.gap hc, before, hcut, hstop, by omega⟩
  | @lexeme start stop w cs rest t ls hw h ih =>
    subst hstart
    obtain ⟨hcovers, before, hcut, hstop, hle⟩ := ih (front ++ w) (by simp)
    rw [List.append_assoc] at hcovers hcut
    exact ⟨hcovers.lexeme hw hle, before, hcut, hstop, by omega⟩

end Lexeme

/-- The source is scanned to its end, or up to the place of the error. -/
theorem scans_tokenize (source : String) :
    match tokenize source with
    | .ok ls => Lexeme.Scans 0 source.toList ls (byteLength source.toList) []
    | .error e => ∃ ls before c tail problem, source.toList = before ++ c :: tail ∧
        e = .malformed source (byteLength before) problem ∧
        Lexeme.Scans 0 source.toList ls (byteLength before) (c :: tail) ∧ Token.isGap c = false ∧
        Token.Refused (c :: tail) := by
  obtain ⟨ls, stop, rest, hscan, hend⟩ := Lexeme.exists_scans 0 source.toList
  obtain ⟨-, before, hcut, rfl, -⟩ := hscan.covers [] rfl
  rw [List.nil_append] at hcut
  have hread := Lexeme.readAll_of_scans hscan
  rcases hend with rfl | ⟨c, tail, problem, rfl, hgap, hrefused⟩
  · rw [Lexeme.readAll_nil] at hread
    rw [tokenize, hread]
    show Lexeme.Scans 0 source.toList (ls ++ []) (byteLength source.toList) []
    rw [List.append_nil] at hcut ⊢
    rw [hcut] at hscan ⊢
    exact hscan
  · rw [Lexeme.readAll_error hgap hrefused] at hread
    rw [tokenize, hread]
    have hspec := Token.read_spec c tail
    rw [hrefused] at hspec
    exact ⟨ls, before, c, tail, problem, hcut, rfl, hscan, hgap, hspec⟩

/-- Tokens lie in the source one behind the other with nothing but gaps around them, and each is the longest
    lexeme at its place, with what that lexeme stands for.  An error stands at the first place, after gaps, at
    which no lexeme begins or a whole number is too large, and everything in front of that place is covered by
    tokens in the same way. -/
theorem tokenize_covers (source : String) :
    match tokenize source with
    | .ok ls => Lexeme.Covers source.toList 0 (byteLength source.toList) ls
    | .error e => ∃ ls before c tail problem, source.toList = before ++ c :: tail ∧
        e = .malformed source (byteLength before) problem ∧
        Lexeme.Covers source.toList 0 (byteLength before) ls ∧
        c ∉ [' ', '\t', '\r', '\n', '\x0c'] ∧ Token.Refused (c :: tail) := by
  have hscans := scans_tokenize source
  cases htokens : tokenize source with
  | ok ls =>
    rw [htokens] at hscans
    exact (hscans.covers [] rfl).1
  | error e =>
    rw [htokens] at hscans
    obtain ⟨ls, before, c, tail, problem, hcut, he, hscan, hgap, hrefused⟩ := hscans
    refine ⟨ls, before, c, tail, problem, hcut, he, (hscan.covers [] rfl).1, ?_, hrefused⟩
    intro hmem
    rw [Lexeme.isGap_iff.2 hmem] at hgap
    cases hgap

/-- An exponent letter without digits behind it begins a name. -/
example : tokenize "1e+" = .ok [⟨.int 1, 0, ['1']⟩, ⟨.ident "e", 1, ['e']⟩, ⟨.mark .plus, 2, ['+']⟩] := by
  cbv

end Stencil
