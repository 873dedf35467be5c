import Stencil.Template.Parser
/-
  Chains of conditions and loops with fallbacks, among siblings.

  In every list of siblings, with blank text and comments left out of account, a tag with `:elseif` or
  `:else` must directly follow one with `:if` or `:elseif`, and a tag with `:forelse` one with
  `:foreach`.  Each tag is given its role in its chain, and each loop is told whether a fallback
  follows.  What stands between a tag and its continuation is dropped, except where blanks show.
-/

namespace Stencil

namespace Siblings

/-- The chain that the tag before may have left open. -/
inductive Chain where
  | absent
  | opened
  | closed
deriving DecidableEq, Repr

/-- The loop that the tag before may have left without a fallback. -/
inductive Pair where
  | absent
  | opened
  | paired
deriving DecidableEq, Repr

/-- What the tag before has left to be continued. -/
structure Before where
  chain : Chain := .absent
  pair : Pair := .absent
deriving DecidableEq, Repr

/-- The role of a tag in a chain, and the chain after it. -/
def chainStep (d : Directives) (chain : Chain) : Except TemplateError (Option ChainPlace × Chain) :=
  match d.condition with
  | none => .ok (none, .absent)
  | some condition =>
    let refuse (problem : DirectiveProblem) : TemplateError :=
      ⟨.directive condition.test.kind.written problem, condition.span⟩
    match condition.test.kind, chain with
    | .ifTrue, _ => .ok (some .head, .opened)
    | .elseIf, .opened => .ok (some .link, .opened)
    | .otherwise, .opened => .ok (some .tail, .closed)
    | _, .closed => .error (refuse .chainClosed)
    | _, .absent => .error (refuse .chainMissing)

/-- The loop after a tag, which may be the fallback of the loop before it. -/
def pairStep (d : Directives) (pair : Pair) : Except TemplateError Pair :=
  match d.loop with
  | none => .ok .absent
  | some (.foreach _) => .ok .opened
  | some (.forelse fallback) =>
    match pair with
    | .opened => .ok .paired
    | .paired => .error ⟨.directive ":forelse" .secondForelse, fallback.span⟩
    | .absent => .error ⟨.directive ":forelse" .loopMissing, fallback.span⟩

/-- The directives of the next node that says something, if it can carry any. -/
def nextDirectives? (nodes : List Node) : Option Directives :=
  (nodes.find? fun n => !n.saysNothing).bind Node.directives?

/-- Whether directives continue what the tag before has left open. -/
def continues (d : Directives) : Bool :=
  d.conditionKind? == some .elseIf || d.conditionKind? == some .otherwise || d.forelse?.isSome

/-- Whether the next node that says something continues what was left open. -/
def isContinued (nodes : List Node) : Bool := (nextDirectives? nodes).any continues

/-- Whether the next node that says something is the fallback of a loop. -/
def hasFallback (nodes : List Node) : Bool :=
  (nextDirectives? nodes).any fun d => d.forelse?.isSome

mutual

/-- Link the siblings inside a node.  Blanks show in it if they show around it, or if it says so. -/
def linkNode (blanksShow : Bool) : Node → Except TemplateError Node
  | .element tag selfClosing children span => do
    let children ← linkAll (blanksShow || Element.showsBlanks tag.name) {} children
    .ok (.element tag selfClosing children span)
  | .component tag children slots span => do
    let children ← linkAll blanksShow {} children
    let slots ← linkSlots blanksShow slots
    .ok (.component tag children slots span)
  | .slot name fallback span => do
    let fallback ← linkAll blanksShow {} fallback
    .ok (.slot name fallback span)
  | .text content span => .ok (.text content span)
  | .expression source escaped span => .ok (.expression source escaped span)
  | .comment content span => .ok (.comment content span)
termination_by structural n => n

/-- Link siblings to each other after what the tag before them has left. -/
def linkAll (blanksShow : Bool) (before : Before) : List Node → Except TemplateError (List Node)
  | [] => .ok []
  | node :: rest => do
    let node ← linkNode blanksShow node
    match node.directives? with
    | some d =>
      let (role, chain) ← chainStep d before.chain
      let pair ← pairStep d before.pair
      let more ← linkAll blanksShow ⟨chain, pair⟩ rest
      .ok (node.withLinks ⟨role, d.foreach?.isSome && hasFallback rest⟩ :: more)
    | none =>
      if node.saysNothing then do
        let more ← linkAll blanksShow before rest
        .ok (if !blanksShow && isContinued rest then more else node :: more)
      else do
        let more ← linkAll blanksShow {} rest
        .ok (node :: more)
termination_by structural nodes => nodes

/-- Link the siblings in the content of named slots. -/
def linkSlots (blanksShow : Bool) :
    List (String × List Node) → Except TemplateError (List (String × List Node))
  | [] => .ok []
  | (name, content) :: slots => do
    let content ← linkAll blanksShow {} content
    let slots ← linkSlots blanksShow slots
    .ok ((name, content) :: slots)
termination_by structural slots => slots

end

end Siblings

/-- Link the siblings of a template at every depth. -/
def Template.link (t : Template) : Except TemplateError Template :=
  (Siblings.linkAll false {} t.children).map fun children => { t with children := children }

/-- Read a template and link its siblings. -/
def Template.compile (o : Dialect) (source : String) : Except TemplateError Template := do
  let t ← Template.parse o source
  t.link

end Stencil
