import Stencil.Proofs.Template.Linked
/-
  How deep a compiled template nests.

  An element takes a level of room for its content; an element that has none, because it is void or closes
  itself, takes no room.  What a reference to a component holds is rendered elsewhere, and is left out.

  The reader is never inside more elements than the limit, so all that it makes on a level fits into the
  room that the limit leaves there.  The invariant is about the stack of open elements; linking changes
  nothing about it.  The main statement is that a compiled template fits into the limit.
-/

namespace Stencil

/-- The elements that wait for content are nested at most so deep in a node. -/
inductive Node.Fits : Nat → Node → Prop where
  | text {room : Nat} {content : String} {s : Span} : Fits room (.text content s)
  | expression {room : Nat} {source : String} {escaped : Bool} {s : Span} :
      Fits room (.expression source escaped s)
  | comment {room : Nat} {content : String} {s : Span} : Fits room (.comment content s)
  /-- An element without content needs no room. -/
  | leaf {room : Nat} {tag : Tag} {selfClosing : Bool} {s : Span}
      (h : selfClosing = true ∨ Element.isVoid tag.name = true) :
      Fits room (.element tag selfClosing [] s)
  | element {room : Nat} {tag : Tag} {selfClosing : Bool} {children : List Node} {s : Span}
      (h : ∀ n ∈ children, Fits room n) : Fits (room + 1) (.element tag selfClosing children s)
  | component {room : Nat} {tag : Tag} {children : List Node} {slots : List (String × List Node)}
      {s : Span} : Fits room (.component tag children slots s)
  | slot {room : Nat} {name : Option String} {fallback : List Node} {s : Span}
      (h : ∀ n ∈ fallback, Fits room n) : Fits room (.slot name fallback s)

namespace Node

/-- What fits into some room fits into more. -/
theorem Fits.mono {room more : Nat} {n : Node} (h : n.Fits room) (hle : room ≤ more) : n.Fits more := by
  induction h generalizing more with
  | text => exact .text
  | expression => exact .expression
  | comment => exact .comment
  | leaf hleaf => exact .leaf hleaf
  | @element room tag selfClosing children s _ ih =>
    obtain ⟨less, rfl⟩ : ∃ less, more = less + 1 := ⟨more - 1, by omega⟩
    exact .element fun n hn => ih n hn (by omega)
  | component => exact .component
  | slot _ ih => exact .slot fun n hn => ih n hn hle

/-- The content of an element has a level less. -/
theorem Fits.children {room : Nat} {tag : Tag} {selfClosing : Bool} {children : List Node} {s : Span}
    (h : Fits (room + 1) (.element tag selfClosing children s)) : ∀ n ∈ children, n.Fits room := by
  cases h with
  | leaf => exact fun n hn => absurd hn List.not_mem_nil
  | element h => exact h

/-- Where there is no room, an element has no content. -/
theorem Fits.of_zero {tag : Tag} {selfClosing : Bool} {children : List Node} {s : Span}
    (h : Fits 0 (.element tag selfClosing children s)) :
    selfClosing = true ∨ Element.isVoid tag.name = true := by
  cases h with
  | leaf hleaf => exact hleaf

theorem Fits.fallback {room : Nat} {name : Option String} {fallback : List Node} {s : Span}
    (h : Fits room (.slot name fallback s)) : ∀ n ∈ fallback, n.Fits room := by
  cases h with
  | slot h => exact h

theorem Fits.withLinks {room : Nat} {n : Node} (h : n.Fits room) (links : Links) :
    (n.withLinks links).Fits room := by
  cases h with
  | text => exact .text
  | expression => exact .expression
  | comment => exact .comment
  | leaf hleaf => exact .leaf hleaf
  | element h => exact .element h
  | component => exact .component
  | slot h => exact .slot h

end Node

namespace Template

/-! ## Reading -/

/-- The node of a tag is a slot marker, a component or an element. -/
theorem tagNode_cases {o : Dialect} {opening : Opening} {children : List Node} {stop : Nat} {n : Node}
    (h : tagNode o opening children stop = .ok n) :
    (∃ name s, n = .slot name children s) ∨
      (∃ content slots s, n = .component opening.tag content slots s) ∨
      ∃ s, n = .element opening.tag opening.selfClosing children s := by
  unfold tagNode at h
  dsimp only at h
  split at h
  · unfold slotNode at h
    split at h
    · cases h
    · cases hname : slotName opening.tag.attributes with
      | error e => rw [hname] at h; cases h
      | ok name =>
        rw [hname] at h
        cases h
        exact .inl ⟨_, _, rfl⟩
  · split at h <;> cases h
    · exact .inr (.inl ⟨_, _, _, rfl⟩)
    · exact .inr (.inr ⟨_, rfl⟩)

/-- The node of a tag that had content needs a level more than the content. -/
theorem fits_of_tagNode {o : Dialect} {opening : Opening} {children : List Node} {stop room : Nat}
    {n : Node} (h : tagNode o opening children stop = .ok n) (hchildren : ∀ m ∈ children, m.Fits room) :
    n.Fits (room + 1) := by
  obtain ⟨_, _, rfl⟩ | ⟨_, _, _, rfl⟩ | ⟨_, rfl⟩ := tagNode_cases h
  · exact .slot fun m hm => (hchildren m hm).mono (Nat.le_succ room)
  · exact .component
  · exact .element hchildren

/-- The node of a tag that does not wait for content needs no room. -/
theorem fits_of_tagNode_closed {o : Dialect} {opening : Opening} {stop : Nat} {n : Node}
    (h : tagNode o opening [] stop = .ok n) (hclosed : opening.isOpen = false) (room : Nat) :
    n.Fits room := by
  obtain ⟨_, _, rfl⟩ | ⟨_, _, _, rfl⟩ | ⟨_, rfl⟩ := tagNode_cases h
  · exact .slot fun m hm => absurd hm List.not_mem_nil
  · exact .component
  · refine .leaf ?_
    cases hself : opening.selfClosing with
    | true => exact .inl rfl
    | false => exact .inr (by simpa [Opening.isOpen, hself] using hclosed)

namespace Reader

/-- Whatever stands between two marks makes a node that needs no room. -/
theorem fits_of_formAt {rawText : Bool} {c : Cursor} {opening closing : String}
    {make : List Char → Span → Node} (h : formAt rawText c = .between opening closing make)
    (content : List Char) (s : Span) (room : Nat) : (make content s).Fits room := by
  cases beginsAt_of_formAt h with
  | comment => exact .comment
  | raw => exact .expression
  | escaped => exact .expression
  | remark => exact .text
  | declaration => exact .text

/-- On every level, the complete siblings fit into what the limit leaves of room there. -/
inductive Room (limit : Nat) : List Node → List (Opening × List Node) → Prop where
  | outermost {siblings : List Node} (h : ∀ n ∈ siblings, n.Fits limit) : Room limit siblings []
  | inner {opening : Opening} {siblings before : List Node} {outer : List (Opening × List Node)}
      (hlevel : outer.length < limit) (h : ∀ n ∈ siblings, n.Fits (limit - (outer.length + 1)))
      (houter : Room limit before outer) : Room limit siblings ((opening, before) :: outer)

variable {o : Dialect} {limit : Nat}

theorem Room.push {siblings : List Node} {opened : List (Opening × List Node)} {n : Node}
    (h : Room limit siblings opened) (hn : n.Fits (limit - opened.length)) :
    Room limit (n :: siblings) opened := by
  cases h with
  | outermost h => exact .outermost (List.forall_mem_cons.2 ⟨hn, h⟩)
  | inner hlevel h houter => exact .inner hlevel (List.forall_mem_cons.2 ⟨hn, h⟩) houter

/-- An opening tag: a sibling without content, or a level that the limit allows. -/
theorem room_of_openTag {r r' : Reader} (hroom : Room o.maxDepth r.siblings r.opened)
    (h : openTag o r = .ok r') : Room o.maxDepth r'.siblings r'.opened := by
  obtain ⟨opening, after, -, ⟨-, hdepth, rfl⟩ | ⟨hclosed, n, hn, rfl⟩⟩ := openTag_cases h
  · exact .inner hdepth (fun n hn => absurd hn List.not_mem_nil) hroom
  · exact hroom.push (fits_of_tagNode_closed hn hclosed _)

/-- A closing tag: what the level holds becomes a sibling on the level below. -/
theorem room_of_closeTag {r r' : Reader} {opening : Opening} {before : List Node}
    {outer : List (Opening × List Node)} (hroom : Room o.maxDepth r.siblings ((opening, before) :: outer))
    (h : closeTag o r opening before outer = .ok r') : Room o.maxDepth r'.siblings r'.opened := by
  obtain ⟨after, n, -, hn, rfl⟩ := closeTag_eq_ok h
  cases hroom with
  | inner hlevel hsiblings houter =>
    have hfits := fits_of_tagNode hn fun m hm => hsiblings m (List.mem_reverse.1 hm)
    have hlevels : o.maxDepth - (outer.length + 1) + 1 = o.maxDepth - outer.length := by omega
    rw [hlevels] at hfits
    exact houter.push hfits

theorem room_of_readNode {r r' : Reader} (hroom : Room o.maxDepth r.siblings r.opened)
    (h : readNode o r = .ok r') : Room o.maxDepth r'.siblings r'.opened := by
  rcases readNode_cases h with ⟨opening, closing, make, n, after, hform, hn, rfl⟩ | ⟨n, after, hn, rfl⟩ |
    ⟨-, h⟩
  · unfold readBetween at hn
    split at hn <;> cases hn
    exact hroom.push (fits_of_formAt hform _ _ _)
  · obtain ⟨rfl, rfl⟩ := Prod.mk.inj hn
    exact hroom.push .text
  · exact room_of_openTag hroom h

/-- Every step keeps the invariant. -/
theorem room_of_step {r r' : Reader} (hroom : Room o.maxDepth r.siblings r.opened)
    (h : step o r = .ok (.next r')) : Room o.maxDepth r'.siblings r'.opened := by
  obtain ⟨-, ⟨opening, before, outer, hopened, -, -, h⟩ | h⟩ := step_next_cases h
  · exact room_of_closeTag (hopened ▸ hroom) h
  · exact room_of_readNode hroom h

theorem fits_of_run {r : Reader} {nodes : List Node} (hroom : Room o.maxDepth r.siblings r.opened)
    (h : run o r = .ok nodes) : ∀ n ∈ nodes, n.Fits o.maxDepth := by
  let I (r : Reader) : Prop := Room o.maxDepth r.siblings r.opened
  obtain ⟨last, hlast, -, hopened, rfl⟩ := run_invariant (I := I) room_of_step hroom h
  have hroom : Room o.maxDepth last.siblings [] := hopened ▸ hlast
  cases hroom with
  | outermost h => exact fun n hn => h n (List.mem_reverse.1 hn)

end Reader

end Template

/-! ## Linking -/

namespace Siblings

mutual

theorem LinkedInside.fits {b : Bool} {n m : Node} (h : LinkedInside b n m) {room : Nat}
    (hn : n.Fits room) : m.Fits room := by
  cases h with
  | text => exact .text
  | expression => exact .expression
  | comment => exact .comment
  | element h =>
    cases hn with
    | leaf hleaf =>
      cases h
      exact .leaf hleaf
    | element hchildren => exact .element (h.fits hchildren)
  | component => exact .component
  | slot h => exact .slot (h.fits hn.fallback)

theorem Linked.fits {b : Bool} {ns ms : List Node} (h : Linked b ns ms) {room : Nat}
    (hns : ∀ n ∈ ns, n.Fits room) : ∀ m ∈ ms, m.Fits room := by
  cases h with
  | nil => exact hns
  | leftOut _ h => exact h.fits (List.forall_mem_cons.1 hns).2
  | kept _ hm h =>
    obtain ⟨hn, hrest⟩ := List.forall_mem_cons.1 hns
    exact List.forall_mem_cons.2 ⟨(hm.fits hn).withLinks _, h.fits hrest⟩

end

end Siblings

namespace Template

/-- A compiled template fits into the limit it was compiled with. -/
theorem fits_of_compile {o : Dialect} {source : String} {t : Template}
    (h : compile o source = .ok t) : ∀ n ∈ t.children, n.Fits o.maxDepth := by
  obtain ⟨parsed, hparsed, hlink⟩ := Reader.bind_eq_ok h
  have hfits : ∀ n ∈ parsed.children, n.Fits o.maxDepth :=
    Reader.fits_of_run (.outermost fun n hn => absurd hn List.not_mem_nil) (parse_eq_ok hparsed)
  have hlinked := parsed.answers_link
  rw [hlink] at hlinked
  exact hlinked.2.2.fits hfits

end Template

end Stencil
