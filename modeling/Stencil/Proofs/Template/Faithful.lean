import Stencil.Proofs.Template.TagPair
import Stencil.Proofs.Template.SiblingLists
import Stencil.Proofs.Template.SlotContent
/-
  What a tree says about its source.

  A list of nodes tiles a stretch of the source when the first node begins where the stretch begins, each
  other one where the node before it ends, and the stretch ends with the last.  A tag stands in the source
  alone, as one opening tag, or around the nodes that tile the text between its opening and its closing
  tag.  A node is faithful when its texts and its tags are what the source has in its spans; for a
  component, whose children were told apart, this is said of the children as they were written, and what
  became of them is apart and in order.

  The laws say that the leaves and the tags which are read give faithful nodes.
-/

namespace Stencil

open Siblings (Throughout)
open Text (EndsFirst)

/-! ## Nodes side by side -/

/-- The spans of the nodes cover the bytes from `start` to `stop`, one behind the other. -/
inductive Tile : Nat → List Node → Nat → Prop where
  | nil {start : Nat} : Tile start [] start
  | cons {n : Node} {ns : List Node} {stop : Nat} (hpos : n.span.start < n.span.stop)
      (h : Tile n.span.stop ns stop) : Tile n.span.start (n :: ns) stop

/-- A node ends before another one begins. -/
def Node.Before (m n : Node) : Prop := m.span.stop ≤ n.span.start

/-- Nodes inside a stretch of the source, each before those that come after it in the list. -/
structure InOrder (start : Nat) (ns : List Node) (stop : Nat) : Prop where
  inside : ∀ n ∈ ns, start ≤ n.span.start ∧ n.span.stop ≤ stop
  pairwise : ns.Pairwise Node.Before

namespace Tile

variable {start mid stop : Nat} {ns : List Node}

theorem le (h : Tile start ns stop) : start ≤ stop := by
  induction h with
  | nil => exact Nat.le_refl _
  | cons hpos _ ih => omega

/-- One more node at the end. -/
theorem concat {n : Node} (h : Tile start ns mid) (hstart : n.span.start = mid)
    (hpos : n.span.start < n.span.stop) : Tile start (ns ++ [n]) n.span.stop := by
  induction h with
  | nil => exact hstart ▸ .cons hpos .nil
  | cons hpos' _ ih => exact .cons hpos' (ih hstart)

theorem inOrder (h : Tile start ns stop) : InOrder start ns stop := by
  induction h with
  | nil => exact ⟨by simp, .nil⟩
  | @cons n ns stop hpos htail ih =>
    constructor
    · intro m hm
      rcases List.mem_cons.1 hm with rfl | hm
      · exact ⟨Nat.le_refl _, htail.le⟩
      · obtain ⟨hstart, hstop⟩ := ih.inside m hm
        exact ⟨by omega, hstop⟩
    · exact List.pairwise_cons.2 ⟨fun m hm => (ih.inside m hm).1, ih.pairwise⟩

end Tile

namespace InOrder

variable {start stop : Nat} {ns : List Node}

/-- Every node may be replaced by nodes within its own span. -/
theorem flatMap {f : Node → List Node} (h : InOrder start ns stop)
    (hf : ∀ n ∈ ns, InOrder n.span.start (f n) n.span.stop) : InOrder start (ns.flatMap f) stop := by
  constructor
  · intro m hm
    obtain ⟨n, hn, hm⟩ := List.mem_flatMap.1 hm
    have houter := h.inside n hn
    have hinner := (hf n hn).inside m hm
    omega
  · refine List.pairwise_flatMap.2 ⟨fun n hn => (hf n hn).pairwise, ?_⟩
    refine List.Pairwise.imp_of_mem ?_ h.pairwise
    intro a b ha hb hab x hx y hy
    have hleft := ((hf a ha).inside x hx).2
    have hright := ((hf b hb).inside y hy).1
    exact Nat.le_trans hleft (Nat.le_trans hab hright)

end InOrder

/-! ## Tags in a source -/

/-- A tag with this name and span stands in the source, with these nodes as written content: alone, as an
    opening tag that is closed in itself or belongs to a void element, or around its content, between an
    opening and a closing tag. -/
inductive Stands (source name : String) (s : Span) : Bool → List Node → Prop where
  | alone {selfClosing : Bool} {text : List Char}
      (halone : selfClosing = true ∨ Element.isVoid name = true)
      (hslice : s.slice source = some (String.ofList text))
      (htext : Tag.OpeningText s.start name.toList selfClosing text) : Stands source name s selfClosing []
  | around {written : List Node} {start stop : Nat} {opening closing : List Char}
      (hvoid : Element.isVoid name = false)
      (hopening : (Span.mk s.start start).slice source = some (String.ofList opening))
      (hopeningText : Tag.OpeningText s.start name.toList false opening)
      (hwritten : Tile start written stop)
      (hclosing : (Span.mk stop s.stop).slice source = some (String.ofList closing))
      (hclosingText : Tag.ClosingText name.toList closing) : Stands source name s false written

/-- A span that has a slice does not end before it begins. -/
theorem Span.le_of_slice_eq_some {s : Span} {source text : String}
    (h : s.slice source = some text) : s.start ≤ s.stop := by
  obtain ⟨cs, hcs, -⟩ := Option.map_eq_some_iff.1 h
  unfold Text.slice at hcs
  split at hcs
  · next hle => exact hle
  · cases hcs

/-- What is written in a tag is in order within the span of the tag. -/
theorem Stands.inOrder {source name : String} {s : Span} {selfClosing : Bool} {written : List Node}
    (h : Stands source name s selfClosing written) : InOrder s.start written s.stop := by
  cases h with
  | alone => exact ⟨by simp, .nil⟩
  | around _ hopening _ hwritten hclosing _ =>
    have hstart := Span.le_of_slice_eq_some hopening
    have hstop := Span.le_of_slice_eq_some hclosing
    dsimp only at hstart hstop
    refine ⟨fun n hn => ?_, hwritten.inOrder.pairwise⟩
    have hinside := hwritten.inOrder.inside n hn
    omega

/-! ## Faithful nodes -/

/-- The children of a component that were told apart: all of them lie in the span of the component, no two
    overlap, and each list is in the order of the source. -/
structure Parted (s : Span) (children : List Node) (slots : List (String × List Node)) : Prop where
  inside : ∀ n ∈ children ++ Template.slotNodes slots, s.start ≤ n.span.start ∧ n.span.stop ≤ s.stop
  disjoint : (children ++ Template.slotNodes slots).Pairwise fun m n => m.Before n ∨ n.Before m
  children_ordered : children.Pairwise Node.Before
  slots_ordered : ∀ slot ∈ slots, slot.2.Pairwise Node.Before

/-- The marks around an expression that is escaped or not. -/
def expressionMarks (escaped : Bool) : String × String :=
  if escaped then ("\x7b\x7b", "\x7d\x7d") else ("\x7b!!", "!!\x7d")

/-- The span of the name in a tag slices to the name, which comes right after the bracket. -/
def NameStands (source : String) (tag : Tag) (s : Span) : Prop :=
  tag.nameSpan.start = s.start + 1 ∧ tag.nameSpan.slice source = some tag.name

/-- A node is what the source has in its spans. -/
def Faithful (o : Dialect) (source : String) : Node → Prop
  | .text content s => s.slice source = some content
  | .comment content s =>
    s.slice source = some ("\x7b\x7b--" ++ content ++ "--\x7d\x7d") ∧
      EndsFirst content.toList "--\x7d\x7d".toList
  | .expression text escaped s =>
    ∃ content, s.slice source =
        some ((expressionMarks escaped).1 ++ String.ofList content ++ (expressionMarks escaped).2) ∧
      EndsFirst content (expressionMarks escaped).2.toList ∧ text = String.ofList (Text.trim content)
  | .element tag selfClosing children s =>
    NameStands source tag s ∧ Stands source tag.name s selfClosing children
  | .slot _ fallback s => ∃ selfClosing, Stands source o.slotTag s selfClosing fallback
  | .component tag children slots s =>
    NameStands source tag s ∧
    (∃ selfClosing written, Stands source tag.name s selfClosing written ∧
      Template.liftSlots written = (children, slots) ∧
      ∀ name content span, .slot (some name) content span ∈ written →
        ∃ selfClosing, Stands source o.slotTag span selfClosing content) ∧
    Parted s children slots

/-- What a faithful node hands on to a component lies in order within its span. -/
theorem Faithful.inOrder_handedOn {o : Dialect} {source : String} {n : Node}
    (h : Faithful o source n) : InOrder n.span.start n.handedOn n.span.stop := by
  unfold Node.handedOn
  split
  · obtain ⟨_, hstands⟩ := h
    exact hstands.inOrder
  · constructor
    · intro m hm
      obtain rfl := List.mem_singleton.1 hm
      exact ⟨Nat.le_refl _, Nat.le_refl _⟩
    · exact List.pairwise_singleton _ _

/-- The faithful content of a component is parted by what happens to it. -/
theorem parted_liftSlots {o : Dialect} {source : String} {s : Span} {written : List Node}
    (horder : InOrder s.start written s.stop) (hfaithful : ∀ n ∈ written, Faithful o source n) :
    Parted s (Template.liftSlots written).1 (Template.liftSlots written).2 := by
  have hhanded := horder.flatMap fun n hn => (hfaithful n hn).inOrder_handedOn
  have hplaced := Template.placed_liftSlots written
  constructor
  · exact fun n hn => hhanded.inside n (hplaced.perm.subset hn)
  · -- apart in the order of the source is apart in any order
    have hapart : (written.flatMap Node.handedOn).Pairwise fun m n => m.Before n ∨ n.Before m :=
      hhanded.pairwise.imp .inl
    exact (hplaced.perm.pairwise_iff Or.symm).2 hapart
  · exact hhanded.pairwise.sublist hplaced.default_sublist
  · exact fun slot hslot => hhanded.pairwise.sublist (hplaced.slot_sublist slot hslot)

/-- What holds throughout the nodes that are handed on holds throughout their new lists. -/
theorem throughout_liftSlots {P : Node → Prop} {written : List Node}
    (h : ∀ n ∈ written, Throughout P n) :
    (∀ n ∈ (Template.liftSlots written).1, Throughout P n) ∧
      ∀ slot ∈ (Template.liftSlots written).2, ∀ n ∈ slot.2, Throughout P n := by
  have hhanded : ∀ m ∈ written.flatMap Node.handedOn, Throughout P m := by
    intro m hm
    obtain ⟨n, hn, hm⟩ := List.mem_flatMap.1 hm
    unfold Node.handedOn at hm
    split at hm
    · exact (Siblings.throughout_slot.1 (h _ hn)).2 m hm
    · exact List.mem_singleton.1 hm ▸ h n hn
  have hplaced := Template.placed_liftSlots written
  exact ⟨fun n hn => hhanded n (hplaced.default_sublist.subset hn),
    fun slot hslot n hn => hhanded n ((hplaced.slot_sublist slot hslot).subset hn)⟩

namespace Template

variable {o : Dialect} {source : String}

/-! ## Leaves -/

theorem reads_of_readBetween {opening closing : String} {make : List Char → Span → Node} {c d : Cursor}
    {n : Node} (h : readBetween opening closing make c = .ok (n, d)) :
    ∃ content, c.Reads (opening.toList ++ content ++ closing.toList) d ∧
      EndsFirst content closing.toList ∧ n = make content ⟨c.position, d.position⟩ := by
  unfold readBetween at h
  split at h
  · next content after hboth =>
    obtain ⟨inside, hopening, hclosing⟩ := Option.bind_eq_some_iff.1 hboth
    obtain ⟨rfl, rfl⟩ := by simpa using h
    obtain ⟨hreads, hfirst⟩ := Cursor.reads_of_through? hclosing
    refine ⟨content, ?_, hfirst, rfl⟩
    rw [List.append_assoc]
    exact (Cursor.reads_of_consume? hopening).trans hreads
  · cases h

/-- What stands between two marks is read to the second one, whatever follows. -/
theorem readBetween_eq (opening : String) {closing : String} (make : List Char → Span → Node)
    {body : List Char} (hclosing : closing.toList ≠ []) (hbody : EndsFirst body closing.toList) (p : Nat)
    (next : List Char) :
    readBetween opening closing make ⟨p, opening.toList ++ body ++ closing.toList ++ next⟩ =
      .ok (make body ⟨p, p + Text.byteLength (opening.toList ++ body ++ closing.toList)⟩,
        ⟨p + Text.byteLength (opening.toList ++ body ++ closing.toList), next⟩) := by
  have hopening : Text.afterMark opening.toList (opening.toList ++ body ++ closing.toList ++ next) =
      some (body ++ closing.toList ++ next) := by
    rw [Text.afterMark_eq_some_iff]
    simp only [List.append_assoc]
  rw [readBetween, Cursor.consume?, hopening, Option.map_some, Option.bind_some, Cursor.through?,
    Text.splitAtFirst_of_endsFirst hbody hclosing, Text.byteLength_append, Text.byteLength_append,
    ← Nat.add_assoc, ← Nat.add_assoc]
  rfl

/-- Each form of a leaf between two marks makes a faithful node of what stands between them. -/
theorem faithful_of_formAt {rawText : Bool} {c : Cursor} {opening closing : String}
    {make : List Char → Span → Node} (h : formAt rawText c = .between opening closing make)
    {content : List Char} {s : Span}
    (hslice : s.slice source = some (opening ++ String.ofList content ++ closing))
    (hfirst : EndsFirst content closing.toList) :
    Throughout (Faithful o source) (make content s) ∧ (make content s).span = s := by
  have hnone : ∀ {n : Node}, Siblings.inside n = [] → Faithful o source n →
      Throughout (Faithful o source) n := by
    intro n hn hfaithful
    refine ⟨hfaithful, fun l hl => ?_⟩
    rw [hn] at hl
    cases hl
  cases beginsAt_of_formAt h with
  | comment => exact ⟨hnone rfl ⟨hslice, by simpa using hfirst⟩, rfl⟩
  | raw => exact ⟨hnone rfl ⟨content, hslice, hfirst, rfl⟩, rfl⟩
  | escaped => exact ⟨hnone rfl ⟨content, hslice, hfirst, rfl⟩, rfl⟩
  | remark => exact ⟨hnone rfl hslice, rfl⟩
  | declaration => exact ⟨hnone rfl hslice, rfl⟩

theorem plainText_append_drop (rawText : Bool) (cs : List Char) :
    plainText rawText cs ++ cs.drop (plainText rawText cs).length = cs := by
  induction cs with
  | nil => rfl
  | cons c cs ih =>
    rw [plainText]
    split
    · rfl
    · rw [List.length_cons, List.drop_succ_cons, List.cons_append, ih]

/-- Plain text is read as it stands, and it is not empty. -/
theorem reads_of_readText (rawText : Bool) {c : Cursor} (hne : c.atEnd = false) :
    ∃ content, content ≠ [] ∧ c.Reads content (readText rawText c).2 ∧
      (readText rawText c).1 =
        .text (String.ofList content) ⟨c.position, (readText rawText c).2.position⟩ := by
  cases hrest : c.rest with
  | nil => rw [Cursor.atEnd, hrest] at hne; cases hne
  | cons ch cs =>
    refine ⟨ch :: plainText rawText cs, List.cons_ne_nil _ _, ?_, ?_⟩
    · simp only [readText, hrest, List.take_succ_cons, List.take_zero, List.tail_cons,
        List.singleton_append, List.length_cons, List.drop_succ_cons]
      refine ⟨?_, rfl⟩
      rw [hrest, List.cons_append, plainText_append_drop]
    · simp only [readText, hrest]
      rfl

/-! ## Nodes of tags -/

/-- The node of a tag that stands in the source is faithful, when the nodes written in it are. -/
theorem faithful_of_tagNode {opening : Opening} {written : List Node} {stop : Nat} {n : Node}
    (h : tagNode o opening written stop = .ok n)
    (hname : NameStands source opening.tag ⟨opening.start, stop⟩)
    (hstands : Stands source opening.tag.name ⟨opening.start, stop⟩ opening.selfClosing written)
    (hwritten : ∀ m ∈ written, Throughout (Faithful o source) m) :
    Throughout (Faithful o source) n ∧ n.span = ⟨opening.start, stop⟩ := by
  unfold tagNode at h
  dsimp only at h
  split at h
  · next hslot =>
    -- a slot marker, if it is one at all
    unfold slotNode at h
    split at h
    · cases h
    · cases hslotName : slotName opening.tag.attributes with
      | error e => rw [hslotName] at h; cases h
      | ok name =>
        rw [hslotName] at h
        obtain rfl := by simpa [Except.map] using h
        rw [eq_of_beq hslot] at hstands
        exact ⟨Siblings.throughout_slot.2 ⟨⟨_, hstands⟩, hwritten⟩, rfl⟩
  · split at h
    · obtain rfl := by simpa using h
      have hself : ∀ m ∈ written, Faithful o source m := fun m hm => (hwritten m hm).1
      refine ⟨Siblings.throughout_component.2 ⟨⟨hname, ⟨_, written, hstands, rfl, ?_⟩, ?_⟩,
        throughout_liftSlots hwritten⟩, rfl⟩
      · exact fun name content span hm => hself _ hm
      · exact parted_liftSlots hstands.inOrder hself
    · obtain rfl := by simpa using h
      exact ⟨Siblings.throughout_element.2 ⟨⟨hname, hstands⟩, hwritten⟩, rfl⟩

end Template

end Stencil
