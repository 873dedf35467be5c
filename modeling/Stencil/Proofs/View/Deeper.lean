import Stencil.Proofs.Template.Shape
import Stencil.Proofs.View.Answers
/-
  The same rendering, deeper in.

  Rendering sees the shapes of nodes only, and it sees fillings only through the content they have for
  slots.  So two renderings of nodes of the same shape, in one scope, do the same as long as their fillings
  have content of the same shape for the same scopes, down to a filling that has nothing for any slot.
  What is below such a filling is never reached, and only how many fillings there are counts.

  Of the two renderings, one may be inside more elements and components than the other.  Then it may be
  refused for its nesting; in all else it follows the other one.  The main statement says so of siblings;
  at the same depth two such renderings are the same.
-/

namespace Stencil

open Node

/-! ## What rendering sees of a tag -/

namespace Expansion

variable (evaluate : Evaluator)

theorem rounds_shape (loop : Foreach) (filter : Option Condition) (scope : Scope) (chosen : Bool)
    (entries : List (Value × Value)) :
    rounds evaluate loop.shape (filter.map Condition.shape) scope chosen entries =
      rounds evaluate loop filter scope chosen entries := by
  induction entries generalizing chosen with
  | nil => rfl
  | cons entry entries ih =>
    obtain ⟨key, item⟩ := entry
    cases filter with
    | none =>
      have hmore := ih chosen
      rw [Option.map_none] at hmore ⊢
      rw [rounds, rounds, hmore]
      rfl
    | some condition =>
      have hmore := fun chosen => ih chosen
      rw [Option.map_some] at hmore ⊢
      rw [rounds, rounds]
      simp only [hmore]
      rfl

theorem loopOver_shape (loop : Foreach) (filter : Option Condition) (scope : Scope) :
    loopOver evaluate loop.shape (filter.map Condition.shape) scope =
      loopOver evaluate loop filter scope := by
  unfold loopOver
  rw [show loop.shape.iterable = loop.iterable from rfl, Option.isNone_map]
  simp only [rounds_shape]

/-- How a tag expands is said by its directives without their spans. -/
theorem expand_shape (d : Directives) (scope : Scope) :
    expand evaluate d.shape scope = expand evaluate d scope := by
  have hcondition : d.shape.condition = d.condition.map Condition.shape := rfl
  unfold expand
  rw [Directives.foreach?_shape, Directives.interplay_shape, hcondition]
  cases d.condition with
  | none =>
    cases d.foreach? with
    | none => rfl
    | some loop => exact loopOver_shape evaluate loop none scope
  | some condition =>
    cases d.foreach? with
    | none => rfl
    | some loop =>
      have hall := loopOver_shape evaluate loop none scope
      have hfiltered := loopOver_shape evaluate loop (some condition) scope
      rw [Option.map_none] at hall
      rw [Option.map_some] at hfiltered
      simp only [Option.map_some, hall, hfiltered]
      rfl

end Expansion

namespace Progress

theorem skips_shape (p : Progress) (tag : Tag) : p.skips tag.shape = p.skips tag := by
  unfold skips
  rw [show tag.shape.directives = tag.directives.shape from rfl, Directives.isSome_forelse?_shape]
  rfl

theorem afterSkipped_shape (p : Progress) (tag : Tag) : p.afterSkipped tag.shape = p.afterSkipped tag := rfl

theorem after_shape (p : Progress) (tag : Tag) (outcome : Outcome) :
    p.after tag.shape outcome = p.after tag outcome := rfl

end Progress

namespace Render

theorem attributesText_shape (evaluate : Evaluator) (scope : Scope) (attributes : List Attribute) :
    attributesText evaluate scope (attributes.map Attribute.shape) =
      attributesText evaluate scope attributes := by
  induction attributes with
  | nil => rfl
  | cons a more ih =>
    rw [List.map_cons, attributesText, attributesText, ih]
    rfl

theorem openingText_shape (evaluate : Evaluator) (scope : Scope) (tag : Tag) :
    openingText evaluate scope tag.shape = openingText evaluate scope tag := by
  unfold openingText
  rw [show tag.shape.attributes = tag.attributes.map Attribute.shape from rfl, attributesText_shape]
  rfl

end Render

theorem Props.ofAttributes_shape (evaluate : Evaluator) (scope : Scope) (attributes : List Attribute) :
    ofAttributes evaluate scope (attributes.map Attribute.shape) =
      ofAttributes evaluate scope attributes := by
  have hfrom : ∀ props, bindFrom evaluate scope props (attributes.map Attribute.shape) =
      bindFrom evaluate scope props attributes := by
    induction attributes with
    | nil => exact fun _ => rfl
    | cons a more ih =>
      intro props
      rw [List.map_cons, bindFrom, bindFrom]
      simp only [ih]
      rfl
  exact hfrom []

namespace SlotSupply

/-- The content for slots, without its spans. -/
def shape (content : SlotSupply) : SlotSupply := ⟨shapeAll content.default, shapeSlots content.named⟩

/-- What there is for a slot, with every node changed in a way that says nothing where it did before. -/
theorem select_map {f : Node → Node} (hf : ∀ n, (f n).saysNothing = n.saysNothing) (content : SlotSupply)
    (name : Option String) :
    SlotSupply.select ⟨content.default.map f, Template.mapSlots f content.named⟩ name =
      (content.select name).map (List.map f) := by
  have hfilter : ∀ nodes? : Option (List Node),
      (nodes?.map (List.map f)).filter (fun nodes => !nodes.all saysNothing) =
        (nodes?.filter fun nodes => !nodes.all saysNothing).map (List.map f) := by
    intro nodes?
    cases nodes? with
    | none => rfl
    | some ns =>
      have hall : (ns.map f).all saysNothing = ns.all saysNothing := by
        rw [List.all_map]
        exact congrArg ns.all (funext hf)
      rw [Option.map_some, Option.filter_some, Option.filter_some, hall]
      split <;> rfl
  unfold select
  rw [← hfilter]
  cases name with
  | none => rfl
  | some name =>
    dsimp only
    split
    · rfl
    · exact congrArg (Option.filter _) (Template.get?_mapSlots content.named name)

theorem select_shape (content : SlotSupply) (name : Option String) :
    content.shape.select name = (content.select name).map shapeAll := by
  have hshapes : shapeAll = List.map Node.shape := funext shapeAll_eq_map
  rw [SlotSupply.shape, hshapes, Template.shapeSlots_eq_mapSlots, select_map saysNothing_shape]

end SlotSupply

/-! ## Following -/

namespace Rendering

variable {α β : Type} {d : Nat}

/-- A rendering does the same as another one, unless it is deeper in and is refused for its nesting. -/
def Follows (d : Nat) (m m' : Rendering α) : Prop :=
  ∀ s, m.run s = m'.run s ∨ 0 < d ∧ ∃ tag limit, m.answer s = .error (.nestedTooDeeply tag limit)

theorem Follows.refl (m : Rendering α) : Follows d m m := fun _ => .inl rfl

theorem Follows.refused (hd : 0 < d) (tag : String) (limit : Nat) (m : Rendering α) :
    Follows d (throw (.nestedTooDeeply tag limit)) m := fun _ => .inr ⟨hd, tag, limit, rfl⟩

/-- Without a difference in depth, the two are the same. -/
theorem Follows.eq {m m' : Rendering α} (h : Follows 0 m m') : m = m' :=
  ExceptT.ext (funext fun s => (h s).resolve_right fun h => absurd h.1 (Nat.lt_irrefl 0))

theorem Follows.bind {m m' : Rendering α} {f f' : α → Rendering β} (hm : Follows d m m')
    (hf : ∀ a, Follows d (f a) (f' a)) : Follows d (m >>= f) (m' >>= f') := by
  intro s
  rcases hm s with hsame | ⟨hd, tag, limit, hrefused⟩
  · unfold answer
    rw [run_bind, run_bind, hsame]
    rcases m'.run s with ⟨_ | a, left⟩
    · exact .inl rfl
    · exact hf a left
  · right
    refine ⟨hd, tag, limit, ?_⟩
    rw [answer_bind_eq, hrefused]
    rfl

theorem Follows.mapM {f f' : α → Rendering β} (hf : ∀ a, Follows d (f a) (f' a)) (as : List α) :
    Follows d (as.mapM f) (as.mapM f') := by
  induction as with
  | nil => exact .refl _
  | cons a as ih =>
    rw [List.mapM_cons, List.mapM_cons]
    exact (hf a).bind fun _ => ih.bind fun _ => .refl _

end Rendering

/-- Fillings that cannot be told from each other: with content of the same shape for the same scopes, down to
    fillings that have nothing for any slot. -/
inductive Filling.Same : List Filling → List Filling → Prop where
  | nil : Same [] []
  | cons {f g : Filling} {fs gs : List Filling} (hcontent : f.content.shape = g.content.shape)
      (hscope : f.scope = g.scope) (h : Same fs gs) : Same (f :: fs) (g :: gs)
  | closed {f g : Filling} {fs gs : List Filling} (hf : ∀ name, f.content.select name = none)
      (hg : ∀ name, g.content.select name = none) (hlength : fs.length = gs.length) :
      Same (f :: fs) (g :: gs)

namespace Filling.Same

variable {fs gs : List Filling}

theorem refl (fs : List Filling) : Same fs fs := by
  induction fs with
  | nil => exact .nil
  | cons f fs ih => exact .cons rfl rfl ih

theorem length_eq (h : Same fs gs) : fs.length = gs.length := by
  induction h with
  | nil => rfl
  | cons _ _ _ ih => exact congrArg (· + 1) ih
  | closed _ _ hlength => exact congrArg (· + 1) hlength

end Filling.Same

namespace Render

open Rendering (Follows)

variable {e : Engine} {d : Nat}

theorem once_of_tag?_eq_none {fs : List Filling} {nesting : Nat} {scope : Scope} {n : Node}
    (h : n.tag? = none) : once e fs nesting scope n = pure "" := by
  cases n with
  | element => cases h
  | component => cases h
  | _ => simp only [once]

/-- What is refused deeper in is refused here too, if there is no difference in depth. -/
theorem refused_follows {nesting limit : Nat} (hroom : ¬nesting + d < limit) (tag : String)
    (m : Rendering String)
    (hm : ¬nesting < limit → m = throw (.nestedTooDeeply tag limit)) :
    Follows d (throw (.nestedTooDeeply tag limit)) m := by
  rcases Nat.eq_zero_or_pos d with rfl | hd
  · rw [hm hroom]
    exact .refl _
  · exact .refused hd tag limit m

mutual

/-- Siblings of the same shape, with fillings that cannot be told from each other. -/
theorem nodes_follows {fs gs : List Filling} (h : Filling.Same fs gs) (nesting : Nat) (scope : Scope)
    (p : Progress) {ns ms : List Node} (hshape : shapeAll ns = shapeAll ms) :
    Follows d (nodes e fs (nesting + d) scope p ns) (nodes e gs nesting scope p ms) :=
  match ms with
  | [] => by
    obtain rfl : ns = [] := by
      cases ns with
      | nil => rfl
      | cons => cases hshape
    rw [nodes, nodes]
    exact .refl _
  | m :: more => by
    obtain ⟨n, rest, rfl, hn, hrest⟩ := shapeAll_eq_cons hshape
    rw [nodes_cons, nodes_cons]
    refine (sibling_follows h nesting scope p hn).bind ?_
    rintro ⟨_, q⟩
    exact (nodes_follows h nesting scope q hrest).bind fun _ => .refl _
termination_by (e.options.maxDepth - nesting, gs.length, sizeOf ms, 0)

/-- Nodes of the same shape without a tag. -/
theorem untaggedText_follows {fs gs : List Filling} (h : Filling.Same fs gs) (nesting : Nat)
    (scope : Scope) {n m : Node} (hshape : n.shape = m.shape) :
    Follows d (untaggedText e fs (nesting + d) scope n) (untaggedText e gs nesting scope m) := by
  cases m with
  | text =>
    obtain ⟨_, rfl⟩ := shape_eq_text hshape
    exact .refl _
  | expression =>
    obtain ⟨_, rfl⟩ := shape_eq_expression hshape
    exact .refl _
  | comment =>
    obtain ⟨_, rfl⟩ := shape_eq_comment hshape
    exact .refl _
  | element =>
    obtain ⟨_, _, _, rfl, -⟩ := shape_eq_element hshape
    exact .refl _
  | component =>
    obtain ⟨_, _, _, _, rfl, -⟩ := shape_eq_component hshape
    exact .refl _
  | slot name fallback =>
    obtain ⟨fallback', _, rfl, hfallback⟩ := shape_eq_slot hshape
    unfold untaggedText
    cases h with
    | nil => exact nodes_follows .nil nesting scope {} hfallback
    | @cons f g fs gs hcontent hscope hrest =>
      have hselect : (f.content.select name).map shapeAll = (g.content.select name).map shapeAll := by
        rw [← SlotSupply.select_shape, hcontent, SlotSupply.select_shape]
      dsimp only
      cases hg : g.content.select name with
      | none =>
        rw [hg, Option.map_none, Option.map_eq_none_iff] at hselect
        rw [hselect]
        exact nodes_follows (.cons hcontent hscope hrest) nesting scope {} hfallback
      | some content =>
        -- the content is rendered with the fillings of the place it was written at
        rw [hg, Option.map_some, Option.map_eq_some_iff] at hselect
        obtain ⟨content', hf, hsame⟩ := hselect
        rw [hf, hscope]
        exact nodes_follows hrest nesting g.scope {} hsame
    | @closed f g fs gs hf hg hlength =>
      dsimp only
      rw [hf, hg]
      exact nodes_follows (.closed hf hg hlength) nesting scope {} hfallback
termination_by (e.options.maxDepth - nesting, gs.length, sizeOf m, 1)

theorem sibling_follows {fs gs : List Filling} (h : Filling.Same fs gs) (nesting : Nat) (scope : Scope)
    (p : Progress) {n m : Node} (hshape : n.shape = m.shape) :
    Follows d (sibling e fs (nesting + d) scope p n) (sibling e gs nesting scope p m) := by
  have htags : n.tag?.map Tag.shape = m.tag?.map Tag.shape := by
    rw [← tag?_shape, hshape, tag?_shape]
  unfold sibling
  cases htag : m.tag? with
  | none =>
    rw [htag, Option.map_none, Option.map_eq_none_iff] at htags
    rw [htags]
    exact (untaggedText_follows h nesting scope hshape).bind fun _ => .refl _
  | some tag =>
    rw [htag, Option.map_some, Option.map_eq_some_iff] at htags
    obtain ⟨tag', htag', hsame⟩ := htags
    have hdirectives : tag'.directives.shape = tag.directives.shape :=
      congrArg (fun shape => shape.directives) hsame
    rw [htag']
    dsimp only
    rw [← p.skips_shape tag', hsame, p.skips_shape tag]
    split
    · rw [← p.afterSkipped_shape tag', hsame, p.afterSkipped_shape tag]
      exact .refl _
    · unfold taggedText
      rw [← Expansion.expand_shape _ tag'.directives, hdirectives, Expansion.expand_shape]
      refine Follows.bind ?_ fun found => ?_
      · exact (Follows.mapM (fun inner => once_follows h nesting inner hshape) _).bind fun _ => .refl _
      · rw [← p.after_shape tag', hsame, p.after_shape tag]
        exact .refl _
termination_by (e.options.maxDepth - nesting, gs.length, sizeOf m, 2)

theorem once_follows {fs gs : List Filling} (h : Filling.Same fs gs) (nesting : Nat) (scope : Scope)
    {n m : Node} (hshape : n.shape = m.shape) :
    Follows d (once e fs (nesting + d) scope n) (once e gs nesting scope m) := by
  cases m with
  | element tag selfClosing children s =>
    obtain ⟨tag', children', s', rfl, htag, hchildren⟩ := shape_eq_element hshape
    have hname : tag'.name = tag.name := congrArg (fun shape => shape.name) htag
    have hopening : openingText e.evaluator scope tag' = openingText e.evaluator scope tag := by
      rw [← openingText_shape, htag, openingText_shape]
    rw [once, once, hname]
    by_cases hroom : nesting + d < e.options.maxDepth
    · rw [if_pos hroom, if_pos (Nat.lt_of_le_of_lt (Nat.le_add_right nesting d) hroom), hopening]
      refine (Follows.refl _).bind fun opening => ?_
      split
      · exact .refl _
      · rw [Nat.add_right_comm]
        exact (nodes_follows h (nesting + 1) scope {} hchildren).bind fun _ => .refl _
    · rw [if_neg hroom]
      exact refused_follows hroom _ _ (fun hroom' => by rw [if_neg hroom'])
  | component tag children slots s =>
    obtain ⟨tag', children', slots', s', rfl, htag, hchildren, hslots⟩ := shape_eq_component hshape
    have hname : tag'.name = tag.name := congrArg (fun shape => shape.name) htag
    have hprops : Props.ofAttributes e.evaluator scope tag'.attributes =
        Props.ofAttributes e.evaluator scope tag.attributes := by
      rw [← Props.ofAttributes_shape, show tag'.attributes.map Attribute.shape =
        tag.attributes.map Attribute.shape from congrArg (fun shape => shape.attributes) htag,
        Props.ofAttributes_shape]
    rw [once, once, hname, h.length_eq]
    by_cases hroom : nesting + d < e.options.maxDepth
    · rw [if_pos hroom, if_pos (Nat.lt_of_le_of_lt (Nat.le_add_right nesting d) hroom), hprops]
      split
      · refine (Follows.refl _).bind fun template => (Follows.refl _).bind fun props => ?_
        have hcontent : SlotSupply.shape ⟨children', slots'⟩ = SlotSupply.shape ⟨children, slots⟩ := by
          rw [SlotSupply.shape, SlotSupply.shape, hchildren, hslots]
        have hfillings : Filling.Same (⟨⟨children', slots'⟩, scope⟩ :: fs)
            (⟨⟨children, slots⟩, scope⟩ :: gs) := .cons hcontent rfl h
        rw [Nat.add_right_comm]
        exact nodes_follows hfillings (nesting + 1) (Scope.root props) {} rfl
      · exact .refl _
    · rw [if_neg hroom]
      exact refused_follows hroom _ _ (fun hroom' => by rw [if_neg hroom'])
  | _ =>
    have htag : n.tag? = none := by
      rw [← Option.map_eq_none_iff (f := Tag.shape), ← tag?_shape, hshape]
      rfl
    rw [once_of_tag?_eq_none htag, once_of_tag?_eq_none rfl]
    exact .refl _
termination_by (e.options.maxDepth - nesting, gs.length, sizeOf m, 0)

end

end Render

end Stencil
