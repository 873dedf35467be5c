import Stencil.Proofs.View.OneStore
import Stencil.Proofs.View.StaticTags
/-
  Pages without expressions.

  `Spelled o inner ns next` says that the siblings `ns` are texts that are copied and elements with static
  tags, and that nothing runs together where they are written one after the other: plain text is followed
  by markup, or by nothing, where `next` is what follows them all.

  Two statements are proved by induction on this.  Such siblings are written as what their nodes are on a
  page, exactly if their elements are not nested too deeply.  And what they are written as is read as
  siblings that are spelled too, are written the same, and have as many elements nested in them.
-/

namespace Stencil

open Template

namespace Node

/-! ## Nodes without expressions -/

mutual

/-- What a node without expressions is on a page. -/
def onPage : Node → List Char
  | .text content _ => content.toList
  | .element tag _ children _ =>
    if Element.isVoid tag.name then tag.openingOnPage
    else tag.openingOnPage ++ onPageAll children ++ tag.closingOnPage
  | _ => []
termination_by structural n => n

/-- What siblings without expressions are on a page. -/
def onPageAll : List Node → List Char
  | [] => []
  | n :: ns => onPage n ++ onPageAll ns
termination_by structural ns => ns

end

mutual

/-- How many elements are nested in a node, which counts if it is one. -/
def levels : Node → Nat
  | .element _ _ children _ => levelsAll children + 1
  | _ => 0
termination_by structural n => n

/-- How many elements are nested in a list of siblings. -/
def levelsAll : List Node → Nat
  | [] => 0
  | n :: ns => max (levels n) (levelsAll ns)
termination_by structural ns => ns

end

variable {tag : Tag} {selfClosing : Bool} {children : List Node} {s : Span}

theorem onPage_text (content : String) (s : Span) : onPage (.text content s) = content.toList := rfl

theorem onPage_void (h : Element.isVoid tag.name = true) :
    onPage (.element tag selfClosing children s) = tag.openingOnPage := if_pos h

theorem onPage_element (h : Element.isVoid tag.name = false) :
    onPage (.element tag selfClosing children s) =
      tag.openingOnPage ++ onPageAll children ++ tag.closingOnPage := if_neg (by simp [h])

theorem onPageAll_append (ns ms : List Node) : onPageAll (ns ++ ms) = onPageAll ns ++ onPageAll ms := by
  induction ns with
  | nil => rfl
  | cons n ns ih => rw [List.cons_append, onPageAll, onPageAll, ih, List.append_assoc]

theorem onPageAll_text (content : List Char) (s : Span) :
    onPageAll [.text (String.ofList content) s] = content := by
  rw [onPageAll, onPageAll, List.append_nil, onPage_text, String.toList_ofList]

theorem onPageAll_cons_congr {n m : Node} {ns ms : List Node} (h : onPage n = onPage m)
    (hrest : onPageAll ns = onPageAll ms) : onPageAll (n :: ns) = onPageAll (m :: ms) := by
  rw [onPageAll, onPageAll, h, hrest]

theorem levelsAll_text (content : String) (s : Span) (rest : List Node) :
    levelsAll (.text content s :: rest) = levelsAll rest := Nat.zero_max _

theorem levelsAll_element (tag : Tag) (selfClosing : Bool) (children : List Node) (s : Span)
    (rest : List Node) : levelsAll (.element tag selfClosing children s :: rest) =
      max (levelsAll children + 1) (levelsAll rest) := rfl

end Node

open Node (levelsAll onPageAll)

/-! ## How siblings are spelled -/

/-- Siblings without expressions, in an element with this name or outside all elements, that may be written
    one after the other before a text. -/
inductive Spelled (o : Dialect) : Option String → List Node → List Char → Prop where
  | nil {inner : Option String} {next : List Char} : Spelled o inner [] next
  | plain {inner : Option String} {content : String} {next : List Char} {s : Span} {rest : List Node}
      (hcontent : PlainText inner content.toList) (hends : EndsPlain (holdsRawText inner) (onPageAll rest))
      (hlast : onPageAll rest = [] → EndsPlain (holdsRawText inner) next) (hrest : Spelled o inner rest next) :
      Spelled o inner (.text content s :: rest) next
  | verbatim {inner : Option String} {content : String} {next : List Char} {s : Span} {rest : List Node}
      (hinner : holdsRawText inner = false) (hcontent : Verbatim content.toList)
      (hrest : Spelled o inner rest next) : Spelled o inner (.text content s :: rest) next
  /-- An element without content and without a closing tag. -/
  | void {inner : Option String} {tag : Tag} {selfClosing : Bool} {next : List Char} {s : Span}
      {rest : List Node} (hinner : holdsRawText inner = false) (htag : tag.Static o)
      (hvoid : Element.isVoid tag.name = true) (hrest : Spelled o inner rest next) :
      Spelled o inner (.element tag selfClosing [] s :: rest) next
  | element {inner : Option String} {tag : Tag} {selfClosing : Bool} {children rest : List Node}
      {next : List Char} {s : Span} (hinner : holdsRawText inner = false) (htag : tag.Static o)
      (hvoid : Element.isVoid tag.name = false)
      (hchildren : Spelled o (some tag.name) children tag.closingOnPage) (hrest : Spelled o inner rest next) :
      Spelled o inner (.element tag selfClosing children s :: rest) next

/-! ## Siblings one after the other -/

namespace Spelled

variable {o : Dialect} {inner : Option String} {ns ms : List Node} {mid next : List Char}

/-- Siblings may be put behind others, if plain text ends before them as it did. -/
theorem append (h : Spelled o inner ns mid) (hms : Spelled o inner ms next)
    (hends : EndsPlain (holdsRawText inner) mid →
      EndsPlain (holdsRawText inner) (onPageAll ms) ∧
        (onPageAll ms = [] → EndsPlain (holdsRawText inner) next)) :
    Spelled o inner (ns ++ ms) next := by
  induction h with
  | nil => exact hms
  | @plain inner content _ s rest hcontent hrest hlast _ ih =>
    rw [List.cons_append]
    refine .plain hcontent ?_ ?_ (ih hms hends)
    · rw [Node.onPageAll_append]
      by_cases hnil : onPageAll rest = []
      · rw [hnil]
        exact (hends (hlast hnil)).1
      · exact hrest.append hnil _
    · intro hnil
      rw [Node.onPageAll_append] at hnil
      obtain ⟨hnone, hmore⟩ := List.append_eq_nil_iff.1 hnil
      exact (hends (hlast hnone)).2 hmore
  | verbatim hinner hcontent _ ih => exact .verbatim hinner hcontent (ih hms hends)
  | void hinner htag hvoid _ ih => exact .void hinner htag hvoid (ih hms hends)
  | element hinner htag hvoid hchildren _ _ ih => exact .element hinner htag hvoid hchildren (ih hms hends)

/-- What follows may be another text, if plain text ends before it as it did. -/
theorem before (h : Spelled o inner ns mid)
    (hends : EndsPlain (holdsRawText inner) mid → EndsPlain (holdsRawText inner) next) :
    Spelled o inner ns next := by
  have hnone : Spelled o inner [] next := .nil
  have happend := h.append hnone fun hmid => ⟨.nil _, fun _ => hends hmid⟩
  rwa [List.append_nil] at happend

/-! ## Writing -/

/-- Siblings that are spelled are nodes without directives. -/
theorem undirected (h : Spelled o inner ns next) :
    ∀ n ∈ ns, Siblings.Throughout Node.Undirected n := by
  have hself : ∀ {tag : Tag} {b : Bool} {children : List Node} {s : Span}, tag.Static o →
      (Node.element tag b children s).Undirected := by
    intro tag b children s htag found hfound
    obtain rfl := Option.some.inj hfound
    exact ⟨htag.directives, htag.links⟩
  have htext : ∀ {content : String} {s : Span}, Siblings.Throughout Node.Undirected (.text content s) :=
    ⟨Node.undirected_of_tag?_eq_none rfl, fun _ hl => absurd hl List.not_mem_nil⟩
  induction h with
  | nil => exact fun _ hn => absurd hn List.not_mem_nil
  | plain _ _ _ _ ih => exact List.forall_mem_cons.2 ⟨htext, ih⟩
  | verbatim _ _ _ ih => exact List.forall_mem_cons.2 ⟨htext, ih⟩
  | void _ htag _ _ ih =>
    refine List.forall_mem_cons.2 ⟨Siblings.throughout_element.2 ⟨hself htag, ?_⟩, ih⟩
    exact fun _ hn => absurd hn List.not_mem_nil
  | element _ htag _ _ _ hchildren hrest =>
    exact List.forall_mem_cons.2 ⟨Siblings.throughout_element.2 ⟨hself htag, hchildren⟩, hrest⟩

end Spelled

namespace Render

variable {e : Engine} {fillings : List Filling} {nesting : Nat} {scope : Scope}

/-- An element with a static tag is written where it stands. -/
theorem answer_nodes_static {o : Dialect} {tag : Tag} (h : tag.Static o) (selfClosing : Bool)
    (children : List Node) (s : Span) (rest : List Node) (p : Progress) (st : Store) :
    (nodes e fillings nesting scope p (.element tag selfClosing children s :: rest)).answer st =
      if nesting < e.options.maxDepth then do
        let text ← (if Element.isVoid tag.name then .ok (String.ofList tag.openingOnPage)
          else do
            let inside ← (nodes e fillings (nesting + 1) scope {} children).answer st
            .ok (String.ofList tag.openingOnPage ++ inside ++ "</" ++ tag.name ++ ">") :
              Except ViewError String)
        let more ← (nodes e fillings nesting scope (p.after tag ⟨true, .noLoop⟩) rest).answer st
        .ok (text ++ more)
      else .error (.nestedTooDeeply tag.name e.options.maxDepth) := by
  rw [answer_nodes_cons, answer_sibling_of_plain rfl h.directives h.links, answer_once_element,
    openingText_of_static h]
  split
  · cases Element.isVoid tag.name with
    | true => rfl
    | false =>
      show ((((nodes e fillings (nesting + 1) scope {} children).answer st >>= _) >>= _) >>= _) = _
      cases (nodes e fillings (nesting + 1) scope {} children).answer st <;> rfl
  · rfl

end Render

namespace Spelled

variable {o : Dialect} {inner : Option String} {ns : List Node} {next : List Char} {e : Engine}
  {fillings : List Filling} {scope : Scope}

/-- Siblings are written as they are on a page, if there is room for their elements. -/
theorem answer_nodes (h : Spelled o inner ns next) {nesting : Nat}
    (hroom : nesting + levelsAll ns ≤ e.options.maxDepth) (p : Progress) (st : Store) :
    (Render.nodes e fillings nesting scope p ns).answer st = .ok (String.ofList (onPageAll ns)) := by
  have htext : ∀ {content : String} {s : Span} {rest : List Node} {nesting : Nat} {p : Progress},
      (Render.nodes e fillings nesting scope p rest).answer st = .ok (String.ofList (onPageAll rest)) →
      (Render.nodes e fillings nesting scope p (.text content s :: rest)).answer st =
        .ok (String.ofList (onPageAll (.text content s :: rest))) := by
    intro content s rest nesting p hrest
    rw [Render.answer_nodes_text, hrest, onPageAll, Node.onPage_text, String.ofList_append, String.ofList_toList]
    rfl
  induction h generalizing nesting p with
  | nil => exact Render.answer_nodes_nil p st
  | plain _ _ _ _ ih =>
    rw [Node.levelsAll_text] at hroom
    exact htext (ih hroom p)
  | verbatim _ _ _ ih =>
    rw [Node.levelsAll_text] at hroom
    exact htext (ih hroom p)
  | void _ htag hvoid _ ih =>
    rw [Node.levelsAll_element] at hroom
    have hlt : nesting < e.options.maxDepth := by omega
    rw [Render.answer_nodes_static htag, if_pos hlt, if_pos hvoid, ih (by omega), onPageAll,
      Node.onPage_void hvoid, String.ofList_append]
    rfl
  | @element inner tag selfClosing children rest next s _ htag hvoid _ _ hchildren hrest =>
    rw [Node.levelsAll_element] at hroom
    have hlt : nesting < e.options.maxDepth := by omega
    have hpage : String.ofList tag.openingOnPage ++ String.ofList (onPageAll children) ++ "</" ++ tag.name ++
        ">" ++ String.ofList (onPageAll rest) =
          String.ofList (onPageAll (.element tag selfClosing children s :: rest)) := by
      rw [← String.toList_inj, onPageAll, Node.onPage_element hvoid]
      simp [Tag.closingOnPage]
    rw [Render.answer_nodes_static htag, if_pos hlt, if_neg (by simp [hvoid]), hchildren (by omega),
      hrest (by omega), ← hpage]
    rfl

/-- Where siblings are written, there is room for their elements. -/
theorem levels_le (h : Spelled o inner ns next) {nesting : Nat} (hnesting : nesting ≤ e.options.maxDepth)
    {p : Progress} {st : Store} {text : String}
    (hanswer : (Render.nodes e fillings nesting scope p ns).answer st = .ok text) :
    nesting + levelsAll ns ≤ e.options.maxDepth := by
  induction h generalizing nesting p text with
  | nil => exact hnesting
  | plain _ _ _ _ ih =>
    rw [Render.answer_nodes_text] at hanswer
    obtain ⟨more, hmore, -⟩ := Reader.bind_eq_ok hanswer
    rw [Node.levelsAll_text]
    exact ih hnesting hmore
  | verbatim _ _ _ ih =>
    rw [Render.answer_nodes_text] at hanswer
    obtain ⟨more, hmore, -⟩ := Reader.bind_eq_ok hanswer
    rw [Node.levelsAll_text]
    exact ih hnesting hmore
  | void _ htag hvoid _ ih =>
    rw [Render.answer_nodes_static htag] at hanswer
    split at hanswer
    · next hlt =>
      obtain ⟨_, -, hanswer⟩ := Reader.bind_eq_ok hanswer
      obtain ⟨more, hmore, -⟩ := Reader.bind_eq_ok hanswer
      have hrest := ih hnesting hmore
      rw [Node.levelsAll_element, levelsAll]
      omega
    · cases hanswer
  | element _ htag hvoid _ _ hchildren hrest =>
    rw [Render.answer_nodes_static htag] at hanswer
    split at hanswer
    · next hlt =>
      obtain ⟨_, hanswer, htail⟩ := Reader.bind_eq_ok hanswer
      rw [if_neg (by simp [hvoid])] at hanswer
      obtain ⟨inside, hinside, -⟩ := Reader.bind_eq_ok hanswer
      obtain ⟨more, hmore, -⟩ := Reader.bind_eq_ok htail
      have hbelow := hchildren hlt hinside
      have hlater := hrest hnesting hmore
      rw [Node.levelsAll_element]
      omega
    · cases hanswer

end Spelled

/-! ## Reading back -/

namespace Template

variable {o : Dialect} {tag : Tag} {opened : List (Opening × List Node)}

/-- A static tag makes an element. -/
theorem tagNode_of_static {opening : Opening} (h : opening.tag.Static o) (children : List Node) (stop : Nat) :
    tagNode o opening children stop =
      .ok (.element opening.tag opening.selfClosing children ⟨opening.start, stop⟩) := by
  rw [tagNode, h.slot, h.component]
  rfl

/-- Where a static tag is written, outside raw text, a tag is read that is written the same. -/
theorem step_openingOnPage (h : tag.Static o) (hraw : holdsRawText (innermost opened) = false) (p : Nat)
    (next : List Char) (siblings : List Node) :
    ∃ opening q, opening.tag.Static o ∧ opening.tag.name = tag.name ∧
      opening.tag.openingOnPage = tag.openingOnPage ∧
      (Element.isVoid tag.name = true →
        ∃ s, Reader.step o ⟨⟨p, tag.openingOnPage ++ next⟩, siblings, opened⟩ =
          .ok (.next ⟨⟨q, next⟩, .element opening.tag opening.selfClosing [] s :: siblings, opened⟩)) ∧
      (Element.isVoid tag.name = false → opened.length < o.maxDepth →
        Reader.step o ⟨⟨p, tag.openingOnPage ++ next⟩, siblings, opened⟩ =
          .ok (.next ⟨⟨q, next⟩, [], (opening, siblings) :: opened⟩)) := by
  obtain ⟨opening, q, hread, hclosing, hname, hstatic, hsame⟩ := readOpening_openingOnPage h p next
  obtain ⟨c, more, htext, hc⟩ := h.opening_eq
  have hmark : Cursor.startsWith ⟨p, tag.openingOnPage ++ next⟩ "</" = false := by
    refine Cursor.startsWith_eq_false fun rest heq => ?_
    rw [htext] at heq
    obtain rfl : c = '/' := (List.cons.inj (List.cons.inj heq).2).1
    cases hc
  have hend : Cursor.atEnd ⟨p, tag.openingOnPage ++ next⟩ = false := by rw [htext]; rfl
  have hform : formAt false ⟨p, tag.openingOnPage ++ next⟩ = .tag := by
    rw [htext]
    exact formAt_of_isAlpha hc p (more ++ next)
  have hstep : Reader.step o ⟨⟨p, tag.openingOnPage ++ next⟩, siblings, opened⟩ =
      .next <$> Reader.openTag o ⟨⟨p, tag.openingOnPage ++ next⟩, siblings, opened⟩ := by
    have hat : Reader.AtNode ⟨⟨p, tag.openingOnPage ++ next⟩, siblings, opened⟩ :=
      Reader.atNode_of_startsWith_eq_false hmark
    have hinside : Reader.inRawText ⟨⟨p, tag.openingOnPage ++ next⟩, siblings, opened⟩ = false := by
      rw [Reader.inRawText_eq, hraw]
    rw [Reader.step_of_atNode hend hat, Reader.readNode, hinside, hform]
  have hopen : opening.isOpen = !Element.isVoid tag.name := by
    rw [Opening.isOpen, hclosing, hname]
    rfl
  refine ⟨opening, q, hstatic, hname, hsame, fun hvoid => ?_, fun hvoid hdepth => ?_⟩
  · refine ⟨⟨opening.start, q⟩, ?_⟩
    rw [hstep, Reader.openTag, hread]
    show (Reader.Step.next <$> if opening.isOpen then _ else _) = _
    rw [hopen, hvoid, if_neg (by decide), tagNode_of_static hstatic]
    rfl
  · rw [hstep, Reader.openTag, hread]
    show (Reader.Step.next <$> if opening.isOpen then _ else _) = _
    rw [hopen, hvoid, if_pos (by decide), if_neg (by show ¬ opened.length ≥ o.maxDepth; omega)]
    rfl

/-- Where its closing tag is written, an element is complete. -/
theorem step_closingOnPage {opening : Opening} (h : opening.tag.Static o) (hname : opening.tag.name = tag.name)
    (opened : List (Opening × List Node)) (p : Nat) (next : List Char) (before siblings : List Node) :
    ∃ q s, Reader.step o ⟨⟨p, tag.closingOnPage ++ next⟩, siblings, (opening, before) :: opened⟩ =
      .ok (.next ⟨⟨q, next⟩,
        .element opening.tag opening.selfClosing siblings.reverse s :: before, opened⟩) := by
  obtain ⟨hahead, q, hread⟩ := readClosing_closingOnPage (hname ▸ h.name) p next
  rw [← hname] at hahead hread
  have hend : Cursor.atEnd ⟨p, tag.closingOnPage ++ next⟩ = false := rfl
  have hmark : Cursor.startsWith ⟨p, tag.closingOnPage ++ next⟩ "</" = true := rfl
  have hstep : Reader.step o ⟨⟨p, tag.closingOnPage ++ next⟩, siblings, (opening, before) :: opened⟩ =
      .next <$> Reader.closeTag o _ opening before opened := Reader.step_of_closing hend hmark rfl hahead
  refine ⟨q, ⟨opening.start, q⟩, ?_⟩
  rw [hstep, Reader.closeTag]
  dsimp only
  rw [hread]
  show (Reader.Step.next <$> (tagNode o opening siblings.reverse q >>= _)) = _
  rw [tagNode_of_static h]
  rfl

namespace Reader

variable {o : Dialect} {p q q' : Nat} {n n' : Node} {rest ns siblings : List Node} {tail : List Char}
  {opened : List (Opening × List Node)}

/-- Siblings on a page are read where their first node is read, and then the others are. -/
theorem run_onPageAll_cons
    (hn : run o ⟨⟨p, Node.onPage n ++ (onPageAll rest ++ tail)⟩, siblings, opened⟩ =
      run o ⟨⟨q, onPageAll rest ++ tail⟩, n' :: siblings, opened⟩)
    (hrest : run o ⟨⟨q, onPageAll rest ++ tail⟩, n' :: siblings, opened⟩ =
      run o ⟨⟨q', tail⟩, ns.reverse ++ (n' :: siblings), opened⟩) :
    run o ⟨⟨p, onPageAll (n :: rest) ++ tail⟩, siblings, opened⟩ =
      run o ⟨⟨q', tail⟩, (n' :: ns).reverse ++ siblings, opened⟩ := by
  rw [onPageAll, List.append_assoc, hn, hrest, List.reverse_cons, List.append_assoc]
  rfl

end Reader

end Template

namespace Spelled

variable {o : Dialect} {inner : Option String} {ns : List Node} {next : List Char}

/-- What siblings are on a page is read as siblings that are the same on a page, with as many elements
    nested in them. -/
theorem run_eq (h : Spelled o inner ns next) (tail : List Char)
    (htail : EndsPlain (holdsRawText inner) next → EndsPlain (holdsRawText inner) tail)
    {opened : List (Opening × List Node)} (hinner : innermost opened = inner)
    (hroom : opened.length + levelsAll ns ≤ o.maxDepth) (p : Nat) (siblings : List Node) :
    ∃ q ns', Reader.run o ⟨⟨p, onPageAll ns ++ tail⟩, siblings, opened⟩ =
        Reader.run o ⟨⟨q, tail⟩, ns'.reverse ++ siblings, opened⟩ ∧
      Spelled o inner ns' next ∧ onPageAll ns' = onPageAll ns ∧ levelsAll ns' = levelsAll ns := by
  induction h generalizing tail opened p siblings with
  | nil => exact ⟨p, [], rfl, .nil, rfl, rfl⟩
  | @plain inner content next s rest hcontent hends hlast _ ih =>
    rw [Node.levelsAll_text] at hroom
    have hafter : EndsPlain (holdsRawText inner) (onPageAll rest ++ tail) := by
      by_cases hnil : onPageAll rest = []
      · rw [hnil]
        exact htail (hlast hnil)
      · exact hends.append hnil tail
    obtain ⟨q, s', hstep⟩ := hcontent.step_eq hafter hinner o p siblings
    rw [String.ofList_toList] at hstep
    obtain ⟨q', ns', hrun, hspelled, hpage, hlevels⟩ :=
      ih tail htail hinner hroom q (.text content s' :: siblings)
    refine ⟨q', .text content s' :: ns', Reader.run_onPageAll_cons (Reader.run_of_step hstep) hrun,
      .plain hcontent (hpage ▸ hends) (hpage ▸ hlast) hspelled, ?_, ?_⟩
    · exact Node.onPageAll_cons_congr rfl hpage
    · rw [Node.levelsAll_text, Node.levelsAll_text, hlevels]
  | @verbatim inner content next s rest hraw hcontent _ ih =>
    rw [Node.levelsAll_text] at hroom
    obtain ⟨q, s', hstep⟩ := hcontent.step_eq (hinner ▸ hraw) o p (onPageAll rest ++ tail) siblings
    rw [String.ofList_toList] at hstep
    obtain ⟨q', ns', hrun, hspelled, hpage, hlevels⟩ :=
      ih tail htail hinner hroom q (.text content s' :: siblings)
    refine ⟨q', .text content s' :: ns', Reader.run_onPageAll_cons (Reader.run_of_step hstep) hrun,
      .verbatim hraw hcontent hspelled, ?_, ?_⟩
    · exact Node.onPageAll_cons_congr rfl hpage
    · rw [Node.levelsAll_text, Node.levelsAll_text, hlevels]
  | @void inner tag selfClosing next s rest hraw htag hvoid _ ih =>
    rw [Node.levelsAll_element] at hroom
    obtain ⟨opening, q, hstatic, hname, hsame, hstep, -⟩ :=
      step_openingOnPage htag (hinner ▸ hraw) p (onPageAll rest ++ tail) siblings
    obtain ⟨s', hstep⟩ := hstep hvoid
    have hvoid' : Element.isVoid opening.tag.name = true := hname ▸ hvoid
    obtain ⟨q', ns', hrun, hspelled, hpage, hlevels⟩ := ih tail htail hinner (by omega) q
      (.element opening.tag opening.selfClosing [] s' :: siblings)
    refine ⟨q', .element opening.tag opening.selfClosing [] s' :: ns', Reader.run_onPageAll_cons ?_ hrun,
      .void hraw hstatic hvoid' hspelled, ?_, ?_⟩
    · rw [Node.onPage_void hvoid, Reader.run_of_step hstep]
    · exact Node.onPageAll_cons_congr (by rw [Node.onPage_void hvoid, Node.onPage_void hvoid', hsame]) hpage
    · rw [Node.levelsAll_element, Node.levelsAll_element, hlevels]
  | @element inner tag selfClosing children rest next s hraw htag hvoid _ _ hchildren hrest =>
    rw [Node.levelsAll_element] at hroom
    obtain ⟨opening, q, hstatic, hname, hsame, -, hopen⟩ := step_openingOnPage htag (hinner ▸ hraw) p
      (onPageAll children ++ (tag.closingOnPage ++ (onPageAll rest ++ tail))) siblings
    have hopen := hopen hvoid (by omega)
    have hvoid' : Element.isVoid opening.tag.name = false := hname ▸ hvoid
    have hclosing : opening.tag.closingOnPage = tag.closingOnPage := by
      rw [Tag.closingOnPage, Tag.closingOnPage, hname]
    -- inside the element there is one level less
    have hends : EndsPlain (holdsRawText (some tag.name)) (tag.closingOnPage ++ (onPageAll rest ++ tail)) :=
      .of_markupAhead rfl
    have hinside : innermost ((opening, siblings) :: opened) = some tag.name := congrArg some hname
    obtain ⟨q₁, children', hrun₁, hspelled₁, hpage₁, hlevels₁⟩ := hchildren _ (fun _ => hends) hinside
      (by rw [List.length_cons]; omega) q []
    obtain ⟨q₂, s', hclose⟩ := step_closingOnPage hstatic hname opened q₁ (onPageAll rest ++ tail) siblings
      (children'.reverse ++ [])
    rw [List.append_nil, List.reverse_reverse] at hclose
    obtain ⟨q₃, rest', hrun₃, hspelled₃, hpage₃, hlevels₃⟩ := hrest tail htail hinner (by omega) q₂
      (.element opening.tag opening.selfClosing children' s' :: siblings)
    refine ⟨q₃, .element opening.tag opening.selfClosing children' s' :: rest',
      Reader.run_onPageAll_cons ?_ hrun₃, ?_, Node.onPageAll_cons_congr ?_ hpage₃, ?_⟩
    · rw [Node.onPage_element hvoid, List.append_assoc, List.append_assoc, Reader.run_of_step hopen, hrun₁,
        List.append_nil, Reader.run_of_step hclose]
    · rw [← hname, ← hclosing] at hspelled₁
      exact .element hraw hstatic hvoid' hspelled₁ hspelled₃
    · rw [Node.onPage_element hvoid, Node.onPage_element hvoid', hsame, hclosing, hpage₁]
    · rw [Node.levelsAll_element, Node.levelsAll_element, hlevels₁, hlevels₃]

end Spelled

end Stencil
