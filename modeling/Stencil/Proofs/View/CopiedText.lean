import Stencil.Proofs.Template.Faithful
import Stencil.Proofs.Template.Inside
import Stencil.View.Interpolation
/-
  Texts that are copied to the page as they stand.

  A source without the braces that open expressions and remarks has two kinds of leaves: plain text, which goes
  on to the next markup, and declarations and remarks of the page, which end with a mark of their own.

  The statements come in pairs.  What is read as a leaf is a text of one of the two kinds; and a text of
  either kind is read as that leaf wherever it stands, if plain text is followed by markup or by nothing.
  A text says nothing about what follows it, since all that may follow plain text is empty or begins with
  `<`, and no mark has this character but in front.
-/

namespace Stencil

/-- The opening mark of an expression occurs nowhere in a text. -/
def Interpolation.Unmarked (cs : List Char) : Prop := ∀ escaped, ¬ opening escaped <:+: cs

theorem Interpolation.Unmarked.of_isInfix {cs text : List Char} (h : Unmarked cs) (htext : text <:+: cs) :
    Unmarked text :=
  fun escaped hmark => h escaped (hmark.trans htext)

namespace Template

open Cursor (BreaksOff Longer)
open Text (EndsFirst)
open Interpolation (Unmarked)

/-- The name of the innermost open element, if there is one. -/
def innermost (opened : List (Opening × List Node)) : Option String :=
  opened.head?.map fun level => level.1.tag.name

/-- Whether the innermost open element holds raw text. -/
def holdsRawText (inner : Option String) : Bool := inner.any Element.isRawText

theorem Reader.inRawText_eq (r : Reader) : r.inRawText = holdsRawText (innermost r.opened) := by
  unfold inRawText
  cases r.opened <;> rfl

/-- A text that ends plain text in front of it: it is empty, or it begins with markup of the page. -/
structure EndsPlain (rawText : Bool) (next : List Char) : Prop where
  breaksOff : BreaksOff next
  plain : plainText rawText next = []

theorem EndsPlain.nil (rawText : Bool) : EndsPlain rawText [] := ⟨fun _ hc => (by cases hc), rfl⟩

theorem EndsPlain.of_markupAhead {rawText : Bool} {cs : List Char}
    (h : markupAhead rawText ('<' :: cs) = true) : EndsPlain rawText ('<' :: cs) :=
  ⟨fun _ hc => (Option.some.inj hc).symm, by rw [plainText, if_pos h]⟩

theorem EndsPlain.markupAhead_eq {rawText : Bool} {c : Char} {cs : List Char}
    (h : EndsPlain rawText (c :: cs)) : c = '<' ∧ markupAhead rawText (c :: cs) = true := by
  refine ⟨h.breaksOff c rfl, ?_⟩
  have hplain := h.plain
  rw [plainText] at hplain
  split at hplain
  · next hmark => exact hmark
  · cases hplain

/-- Markup that ends plain text does so whatever follows it. -/
theorem EndsPlain.append {rawText : Bool} {cs : List Char} (h : EndsPlain rawText cs) (hne : cs ≠ [])
    (more : List Char) : EndsPlain rawText (cs ++ more) := by
  obtain ⟨c, cs, rfl⟩ := List.exists_cons_of_ne_nil hne
  obtain ⟨rfl, hmark⟩ := h.markupAhead_eq
  refine .of_markupAhead ?_
  cases cs with
  | nil => cases rawText <;> cases hmark
  | cons d cs =>
    by_cases hd : d = '/'
    · subst hd
      rfl
    · simpa [markupAhead, hd] using hmark

/-- Markup that ends plain text does so without what follows it, if no mark goes on into that. -/
theorem EndsPlain.of_append {rawText : Bool} {cs tail : List Char} (h : EndsPlain rawText (cs ++ tail))
    (hne : cs ≠ []) (htail : Cursor.BreaksOff tail) : EndsPlain rawText cs := by
  obtain ⟨c, cs, rfl⟩ := List.exists_cons_of_ne_nil hne
  obtain ⟨rfl, hmark⟩ := h.markupAhead_eq
  refine .of_markupAhead ?_
  rw [← markupAhead_longer rawText '<' cs htail]
  exact hmark

/-- Plain text in an element with this name, or outside all elements. -/
structure PlainText (inner : Option String) (content : List Char) : Prop where
  nonempty : content ≠ []
  form : formAt (holdsRawText inner) ⟨0, content⟩ = .plain
  plain : plainText (holdsRawText inner) content.tail = content.tail
  closing : Cursor.startsWith ⟨0, content⟩ "</" = true →
    ∃ name ∈ inner, closingAhead name ⟨0, content⟩ = false ∧ Element.isRawText name = true

/-- A remark or a declaration of the page. -/
inductive Verbatim : List Char → Prop where
  | remark {body : List Char} (h : EndsFirst body "-->".toList) :
      Verbatim ("<!--".toList ++ body ++ "-->".toList)
  | declaration {body : List Char} (h : EndsFirst body ">".toList)
      (hfirst : body.head? = some '!' ∨ body.head? = some '?') (hremark : ¬ "!--".toList <+: body) :
      Verbatim ("<".toList ++ body ++ ">".toList)

theorem Verbatim.endsPlain {content : List Char} (h : Verbatim content) :
    content ≠ [] ∧ EndsPlain false content := by
  cases h with
  | remark => exact ⟨List.cons_ne_nil _ _, .of_markupAhead rfl⟩
  | declaration _ hfirst =>
    refine ⟨List.cons_ne_nil _ _, .of_markupAhead ?_⟩
    rcases hfirst with hfirst | hfirst <;> obtain ⟨more, rfl⟩ := List.head?_eq_some_iff.1 hfirst <;> rfl

/-- Outside raw text a letter behind the first character of a tag begins one. -/
theorem formAt_of_isAlpha {c : Char} (hc : c.isAlpha = true) (p : Nat) (more : List Char) :
    formAt false ⟨p, '<' :: c :: more⟩ = .tag := by
  have hbrace : ∀ mark : String, mark.toList.head? = some '\x7b' →
      Cursor.startsWith ⟨p, '<' :: c :: more⟩ mark = false := fun mark hmark =>
    Cursor.startsWith_eq_false_of_head hmark (by simp)
  have hangle : ∀ {mark : String} {d : Char} {ds : List Char}, mark.toList = '<' :: d :: ds →
      d.isAlpha = false → Cursor.startsWith ⟨p, '<' :: c :: more⟩ mark = false := by
    intro mark d ds hmark hd
    refine Cursor.startsWith_eq_false fun rest heq => ?_
    rw [hmark] at heq
    obtain rfl : c = d := (List.cons.inj (List.cons.inj heq).2).1
    rw [hc] at hd
    cases hd
  have hahead : openingAhead ('<' :: c :: more) = true := hc
  have hremark := @hangle "<!--" _ _ rfl rfl
  have hdeclaration := @hangle "<!" _ _ rfl rfl
  have hprocessing := @hangle "<?" _ _ rfl rfl
  rw [formAt, hbrace "\x7b\x7b--" rfl, hbrace "\x7b!!" rfl, hbrace "\x7b\x7b" rfl, hremark, hdeclaration,
    hprocessing, hahead]
  rfl

theorem markupAhead_of_isAlpha {c : Char} (hc : c.isAlpha = true) (more : List Char) :
    markupAhead false ('<' :: c :: more) = true := by
  unfold markupAhead
  split
  · rfl
  · rfl
  · rfl
  · next heq =>
    obtain ⟨rfl, -⟩ := List.cons.inj (List.cons.inj heq).2
    rw [hc]
    rfl
  · next hnone => exact absurd rfl (hnone c more)

/-- No tag begins in raw text. -/
theorem inRawText_of_formAt {rawText : Bool} {c : Cursor} (h : formAt rawText c = .tag) : rawText = false := by
  cases beginsAt_of_formAt h with
  | tag hraw => exact hraw

/-! ## Plain text -/

variable {o : Dialect} {inner : Option String} {content next : List Char} {p : Nat} {siblings : List Node}
  {opened : List (Opening × List Node)}

/-- Plain text is read to where it ends. -/
theorem PlainText.step_eq (h : PlainText inner content) (hnext : EndsPlain (holdsRawText inner) next)
    (hinner : innermost opened = inner) (o : Dialect) (p : Nat) (siblings : List Node) :
    ∃ q s, Reader.step o ⟨⟨p, content ++ next⟩, siblings, opened⟩ =
      .ok (.next ⟨⟨q, next⟩, .text (String.ofList content) s :: siblings, opened⟩) := by
  have hlonger : Longer next ⟨0, content⟩ ⟨p, content ++ next⟩ := rfl
  have hleft : 0 < Cursor.left ⟨0, content⟩ := List.length_pos_iff.2 h.nonempty
  have hat : Reader.AtNode ⟨⟨p, content ++ next⟩, siblings, opened⟩ := by
    intro hmark
    rw [hlonger.startsWith hnext.breaksOff hleft (by decide)] at hmark
    obtain ⟨name, hname, hahead, hraw⟩ := h.closing hmark
    obtain ⟨⟨opening, before⟩, hlevel, rfl⟩ := Option.map_eq_some_iff.1 (hinner.trans hname)
    obtain ⟨levels, rfl⟩ := List.head?_eq_some_iff.1 hlevel
    exact ⟨opening, before, levels, rfl, closingAhead_longer_eq_false hlonger hnext.breaksOff hleft
      (Element.not_mem_of_isRawText hraw) hahead, hraw⟩
  have hraw : Reader.inRawText ⟨⟨p, content ++ next⟩, siblings, opened⟩ = holdsRawText inner := by
    rw [Reader.inRawText_eq, hinner]
  have hform : formAt (holdsRawText inner) ⟨p, content ++ next⟩ = .plain := by
    rw [formAt_longer hlonger hnext.breaksOff hleft, h.form]
  obtain ⟨c, cs, rfl⟩ := List.exists_cons_of_ne_nil h.nonempty
  have hplain : plainText (holdsRawText inner) (cs ++ next) = cs :=
    (plainText_longer cs hnext.breaksOff hnext.plain).trans h.plain
  rw [Reader.step_of_atNode (hlonger.atEnd hleft) hat, Reader.readNode, hraw, hform]
  dsimp only
  simp only [readText, List.cons_append, List.take_succ_cons, List.take_zero, List.tail_cons, hplain,
    List.nil_append, List.length_cons, List.drop_succ_cons, List.drop_left]
  exact ⟨_, _, rfl⟩

/-- What is left after plain text is nothing, or markup. -/
theorem plainText_drop (rawText : Bool) (cs : List Char) :
    plainText rawText (cs.drop (plainText rawText cs).length) = [] := by
  induction cs with
  | nil => rfl
  | cons c cs ih =>
    rw [plainText]
    split
    · next hmark =>
      rw [List.length_nil, List.drop_zero, plainText, if_pos hmark]
    · rw [List.length_cons, List.drop_succ_cons, ih]

/-- Without braces all markup begins with the first character of a tag. -/
theorem endsPlain_of_unmarked {rawText : Bool} {cs : List Char} (hplain : plainText rawText cs = [])
    (h : Unmarked cs) : EndsPlain rawText cs := by
  refine ⟨fun c hc => ?_, hplain⟩
  obtain ⟨more, rfl⟩ := List.head?_eq_some_iff.1 hc
  have hmark : markupAhead rawText (c :: more) = true := by
    rw [plainText] at hplain
    split at hplain
    · next hmark => exact hmark
    · cases hplain
  unfold markupAhead at hmark
  split at hmark
  · next rest heq => exact absurd ⟨[], rest, heq.symm⟩ (h true)
  · next rest heq => exact absurd ⟨[], rest, heq.symm⟩ (h false)
  · next heq => exact (List.cons.inj heq).1
  · next heq => exact (List.cons.inj heq).1
  · cases hmark

/-- What is read as plain text is plain text, up to where it ends. -/
theorem plainText_of_readText {r : Reader} (hat : r.AtNode) (hend : r.cursor.atEnd = false)
    (hform : formAt r.inRawText r.cursor = .plain) (h : Unmarked r.cursor.rest) :
    ∃ content s d, readText r.inRawText r.cursor = (.text (String.ofList content) s, d) ∧
      r.cursor.rest = content ++ d.rest ∧ PlainText (innermost r.opened) content ∧
      EndsPlain (holdsRawText (innermost r.opened)) d.rest := by
  rw [Reader.inRawText_eq] at hform ⊢
  generalize hraw : holdsRawText (innermost r.opened) = raw at hform
  cases hrest : r.cursor.rest with
  | nil => rw [Cursor.atEnd, hrest] at hend; cases hend
  | cons c cs =>
    have hsplit : r.cursor.rest = (c :: plainText raw cs) ++ cs.drop (plainText raw cs).length := by
      rw [hrest, List.cons_append, plainText_append_drop]
    have hends : EndsPlain raw (cs.drop (plainText raw cs).length) := by
      refine endsPlain_of_unmarked (plainText_drop raw cs) (h.of_isInfix ?_)
      rw [hsplit]
      exact (List.suffix_append _ _).isInfix
    have hlonger : Longer (cs.drop (plainText raw cs).length) ⟨0, c :: plainText raw cs⟩ r.cursor := hsplit
    have hleft : 0 < Cursor.left ⟨0, c :: plainText raw cs⟩ := Nat.zero_lt_succ _
    have hcontent : PlainText (innermost r.opened) (c :: plainText raw cs) := by
      refine ⟨List.cons_ne_nil _ _, ?_, ?_, fun hmark => ?_⟩
      · rw [hraw, ← formAt_longer hlonger hends.breaksOff hleft, hform]
      · have hagain := plainText_longer (plainText raw cs) hends.breaksOff hends.plain
        rw [plainText_append_drop] at hagain
        rw [hraw, List.tail_cons, ← hagain]
      · rw [← hlonger.startsWith hends.breaksOff hleft (by decide)] at hmark
        obtain ⟨opening, before, levels, hopened, hahead, hrawText⟩ := hat hmark
        refine ⟨opening.tag.name, by rw [innermost, hopened]; rfl, ?_, hrawText⟩
        rw [Bool.eq_false_iff] at hahead ⊢
        exact fun hshort => hahead (closingAhead_longer hlonger hshort)
    have hread : readText raw r.cursor =
        (.text (String.ofList (c :: plainText raw cs))
            ⟨r.cursor.position, r.cursor.position + Text.byteLength (c :: plainText raw cs)⟩,
          ⟨r.cursor.position + Text.byteLength (c :: plainText raw cs),
            cs.drop (plainText raw cs).length⟩) := by
      simp only [readText, hrest, List.take_succ_cons, List.take_zero, List.tail_cons, List.singleton_append,
        List.length_cons, List.drop_succ_cons]
      exact rfl
    exact ⟨_, _, _, hread, hrest ▸ hsplit, hcontent, hends⟩

/-! ## Remarks and declarations -/

/-- What begins like a declaration, and not like a remark, is read as a declaration. -/
theorem formAt_declaration {body : List Char} (hfirst : body.head? = some '!' ∨ body.head? = some '?')
    (hremark : ¬ "!--".toList <+: body) (p : Nat) (next : List Char) :
    formAt false ⟨p, '<' :: (body ++ '>' :: next)⟩ = verbatimForm "<" ">" := by
  have hstarts : Cursor.startsWith ⟨p, '<' :: (body ++ '>' :: next)⟩ "<!--" = false := by
    refine Cursor.startsWith_eq_false fun rest heq => hremark ?_
    have hbody : body ++ '>' :: next = "!--".toList ++ rest := (List.cons.inj heq).2
    rcases List.append_eq_append_iff.1 hbody with ⟨more, hmark, hnext⟩ | ⟨more, hfront, -⟩
    · -- the end of the declaration would be a character of the mark
      cases more with
      | nil => exact ⟨[], by rw [hmark, List.append_nil, List.append_nil]⟩
      | cons c more =>
        obtain ⟨rfl, -⟩ := List.cons.inj hnext
        have hmem : '>' ∈ "!--".toList := hmark ▸ List.mem_append_right body List.mem_cons_self
        exact absurd hmem (by decide)
    · exact ⟨more, hfront.symm⟩
  have hdeclares : (Cursor.startsWith ⟨p, '<' :: (body ++ '>' :: next)⟩ "<!" ||
      Cursor.startsWith ⟨p, '<' :: (body ++ '>' :: next)⟩ "<?") = true := by
    rcases hfirst with hfirst | hfirst <;> obtain ⟨more, rfl⟩ := List.head?_eq_some_iff.1 hfirst <;> rfl
  have hbrace : ∀ mark : String, mark.toList.head? = some '\x7b' →
      Cursor.startsWith ⟨p, '<' :: (body ++ '>' :: next)⟩ mark = false := fun mark hmark =>
    Cursor.startsWith_eq_false_of_head hmark (by simp)
  rw [formAt, hbrace "\x7b\x7b--" rfl, hbrace "\x7b!!" rfl, hbrace "\x7b\x7b" rfl, hstarts, hdeclares]
  rfl

/-- A remark or a declaration is read to its end. -/
theorem Verbatim.step_eq (h : Verbatim content) (hinner : holdsRawText (innermost opened) = false)
    (o : Dialect) (p : Nat) (next : List Char) (siblings : List Node) :
    ∃ q s, Reader.step o ⟨⟨p, content ++ next⟩, siblings, opened⟩ =
      .ok (.next ⟨⟨q, next⟩, .text (String.ofList content) s :: siblings, opened⟩) := by
  -- either form is the text between its two marks, with these
  have hleaf : ∀ {opening closing : String} {body : List Char}, closing.toList ≠ [] →
      EndsFirst body closing.toList → content = opening.toList ++ body ++ closing.toList →
      formAt false ⟨p, content ++ next⟩ = verbatimForm opening closing →
      Cursor.atEnd ⟨p, content ++ next⟩ = false → Cursor.startsWith ⟨p, content ++ next⟩ "</" = false →
      ∃ q s, Reader.step o ⟨⟨p, content ++ next⟩, siblings, opened⟩ =
        .ok (.next ⟨⟨q, next⟩, .text (String.ofList content) s :: siblings, opened⟩) := by
    intro opening closing body hclosing hbody hcontent hform hend hmark
    have hraw : Reader.inRawText ⟨⟨p, content ++ next⟩, siblings, opened⟩ = false := by
      rw [Reader.inRawText_eq, hinner]
    have hat : Reader.AtNode ⟨⟨p, content ++ next⟩, siblings, opened⟩ :=
      Reader.atNode_of_startsWith_eq_false hmark
    have hread := readBetween_eq opening
      (fun content span => .text (opening ++ String.ofList content ++ closing) span) hclosing hbody p next
    rw [← hcontent] at hread
    have htext : opening ++ String.ofList body ++ closing = String.ofList content := by
      rw [← String.toList_inj, hcontent]
      simp
    rw [htext] at hread
    rw [Reader.step_of_atNode hend hat, Reader.readNode, hraw, hform, verbatimForm]
    dsimp only
    rw [hread]
    exact ⟨_, _, rfl⟩
  cases h with
  | remark hbody => exact hleaf (by decide) hbody rfl rfl rfl rfl
  | @declaration body hbody hfirst hremark =>
    have htext : "<".toList ++ body ++ ">".toList ++ next = '<' :: (body ++ '>' :: next) := by simp
    refine hleaf (by decide) hbody rfl ?_ rfl ?_
    · rw [htext, formAt_declaration hfirst hremark]
    · rw [htext]
      rcases hfirst with hfirst | hfirst <;> obtain ⟨more, rfl⟩ := List.head?_eq_some_iff.1 hfirst <;> rfl

/-- The second character of a declaration is not its end. -/
theorem head?_of_declaration {body more rest : List Char} {c : Char} (hc : c ≠ '>')
    (h : '<' :: body ++ ['>'] ++ more = '<' :: c :: rest) : body.head? = some c := by
  cases body with
  | nil => exact absurd (List.cons.inj (List.cons.inj h).2).1.symm hc
  | cons b body => exact congrArg some (List.cons.inj (List.cons.inj h).2).1

/-- What is read between two marks in a source without braces is a remark or a declaration of the page. -/
theorem verbatim_of_readBetween {rawText : Bool} {c d : Cursor} {opening closing : String}
    {make : List Char → Span → Node} {n : Node} (hform : formAt rawText c = .between opening closing make)
    (hn : readBetween opening closing make c = .ok (n, d)) (h : Unmarked c.rest) :
    rawText = false ∧ ∃ content s, n = .text (String.ofList content) s ∧ c.rest = content ++ d.rest ∧
      Verbatim content := by
  have hstarts : ∀ {mark : String}, c.startsWith mark = true → ∃ rest, c.rest = mark.toList ++ rest := by
    intro mark hmark
    obtain ⟨after, hafter⟩ := Cursor.startsWith_iff.1 hmark
    exact ⟨after.rest, (Cursor.reads_of_consume? hafter).rest_eq⟩
  obtain ⟨body, hreads, hbody, rfl⟩ := reads_of_readBetween hn
  have hcopied : ∀ {opening closing : String}, String.ofList (opening.toList ++ body ++ closing.toList) =
      opening ++ String.ofList body ++ closing := by
    intro opening closing
    rw [String.ofList_append, String.ofList_append, String.ofList_toList, String.ofList_toList]
  cases beginsAt_of_formAt hform with
  | comment hmark =>
    obtain ⟨rest, hrest⟩ := hstarts hmark
    exact absurd ⟨[], '-' :: '-' :: rest, hrest.symm⟩ (h true)
  | raw hmark =>
    obtain ⟨rest, hrest⟩ := hstarts hmark
    exact absurd ⟨[], rest, hrest.symm⟩ (h false)
  | escaped hmark =>
    obtain ⟨rest, hrest⟩ := hstarts hmark
    exact absurd ⟨[], rest, hrest.symm⟩ (h true)
  | remark hraw =>
    exact ⟨hraw, _, ⟨c.position, d.position⟩, by rw [hcopied], hreads.rest_eq, .remark hbody⟩
  | declaration hraw hremark hmark =>
    refine ⟨hraw, _, ⟨c.position, d.position⟩, by rw [hcopied], hreads.rest_eq, .declaration hbody ?_ ?_⟩
    · rcases hmark with hmark | hmark
      · obtain ⟨rest, hrest⟩ := hstarts hmark
        exact .inl (head?_of_declaration (by decide) (hreads.rest_eq.symm.trans hrest))
      · obtain ⟨rest, hrest⟩ := hstarts hmark
        exact .inr (head?_of_declaration (by decide) (hreads.rest_eq.symm.trans hrest))
    · rintro ⟨more, rfl⟩
      have hrest : c.rest = "<!--".toList ++ (more ++ ">".toList ++ d.rest) := by
        rw [hreads.rest_eq]
        simp
      rw [Cursor.startsWith_of_rest_eq _ hrest] at hremark
      cases hremark

end Template

end Stencil
