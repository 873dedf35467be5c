import Stencil.View.Renderer
/-
  Rendering siblings one after the other.

  A sibling gives a text, and what is known after it.  Nodes without a tag only give a text.  A tag is
  passed over, or its directives are expanded and its body is rendered in each scope of the expansion.

  The main statement is that rendering a list is rendering its siblings in turn, so a list that is put
  together from two is rendered as the one and then, with what is known after it, as the other.
-/

namespace Stencil.Render

variable (e : Engine) (fillings : List Filling) (nesting : Nat) (scope : Scope)

/-- The text of a node without a tag. -/
def untaggedText : Node → Rendering String
  | .text content _ => pure content
  | .expression source escaped _ => do
    let v ← evaluated (e.evaluator source scope)
    pure (Interpolation.shown escaped v)
  | .slot name fallback _ =>
    match fillings with
    | [] => nodes e [] nesting scope {} fallback
    | filling :: outer =>
      match filling.content.select name with
      | some content => nodes e outer nesting filling.scope {} content
      | none => nodes e (filling :: outer) nesting scope {} fallback
  | _ => pure ""

/-- The text of a tag with these directives, and their outcome. -/
def taggedText (d : Directives) (n : Node) : Rendering (String × Outcome) := do
  let texts ← (Expansion.expand e.evaluator d scope).bodies.mapM fun inner =>
    once e fillings nesting inner n
  let outcome ← evaluated (Expansion.expand e.evaluator d scope).outcome
  pure (String.join texts, outcome)

/-- The text of a sibling, and what is known after it. -/
def sibling (p : Progress) (n : Node) : Rendering (String × Progress) :=
  match n.tag? with
  | none => do
    let text ← untaggedText e fillings nesting scope n
    pure (text, p)
  | some tag =>
    if p.skips tag then pure ("", p.afterSkipped tag)
    else do
      let (text, outcome) ← taggedText e fillings nesting scope tag.directives n
      pure (text, p.after tag outcome)

/-- The text of siblings, and what is known after them. -/
def siblings (p : Progress) : List Node → Rendering (String × Progress)
  | [] => pure ("", p)
  | n :: rest => do
    let (text, p) ← sibling e fillings nesting scope p n
    let (more, p) ← siblings p rest
    pure (text ++ more, p)

variable {e fillings nesting scope}

/-- Nothing in front changes nothing. -/
theorem map_empty_append (x : Rendering String) : HAppend.hAppend "" <$> x = x := by
  have hid : (HAppend.hAppend "" : String → String) = id := funext fun _ => String.empty_append
  rw [hid, id_map]

/-- The first sibling is rendered, and then the others with what is known after it. -/
theorem nodes_cons (p : Progress) (n : Node) (rest : List Node) :
    nodes e fillings nesting scope p (n :: rest) = (do
      let (text, q) ← sibling e fillings nesting scope p n
      let more ← nodes e fillings nesting scope q rest
      pure (text ++ more)) := by
  cases n with
  | text content s => simp [nodes, sibling, Node.tag?, untaggedText]
  | comment content s => simp [nodes, sibling, Node.tag?, untaggedText, map_empty_append]
  | expression source escaped s => simp [nodes, sibling, Node.tag?, untaggedText]
  | slot name fallback s =>
    rw [nodes.eq_def]
    simp only [sibling, Node.tag?, untaggedText, bind_assoc, pure_bind]
    cases fillings with
    | nil => rfl
    | cons filling outer =>
      cases hcontent : filling.content.select name <;> simp only [hcontent]
  | element tag selfClosing children s =>
    rw [nodes]
    simp only [sibling, Node.tag?, taggedText]
    split <;> simp [map_empty_append]
  | component tag children slots s =>
    rw [nodes]
    simp only [sibling, Node.tag?, taggedText]
    split <;> simp [map_empty_append]

theorem nodes_eq (p : Progress) (ns : List Node) :
    nodes e fillings nesting scope p ns = Prod.fst <$> siblings e fillings nesting scope p ns := by
  induction ns generalizing p with
  | nil => simp [nodes, siblings]
  | cons n rest ih =>
    rw [nodes_cons, siblings]
    simp [ih]

theorem siblings_append (p : Progress) (ms ns : List Node) :
    siblings e fillings nesting scope p (ms ++ ns) = (do
      let (text, q) ← siblings e fillings nesting scope p ms
      let (more, q) ← siblings e fillings nesting scope q ns
      pure (text ++ more, q)) := by
  induction ms generalizing p with
  | nil => simp [siblings]
  | cons m ms ih =>
    rw [List.cons_append, siblings, siblings]
    simp [ih, String.append_assoc]

end Stencil.Render
