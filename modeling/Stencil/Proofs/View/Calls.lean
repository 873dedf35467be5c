import Mathlib.Logic.Function.Iterate
import Stencil.Proofs.View.Answers
/-
  Rendering as a machine with a stack of calls.

  Rendering is a set of routines that call each other: siblings are rendered one after the other, a tag is
  rendered once for each round of its directives, each time as an element or a component that is open, and a
  slot marker is rendered as what fills it.  Here the calls that are going on are data: a stack of them,
  innermost first, with the text written so far and the store.  A step does what the innermost call does
  next, which is to write, to return, to call, or to refuse.

  The main statement is that the machine ends, with what rendering answers and the store it leaves; what the
  stack looks like on the way is what can be said about nested calls.
-/

namespace Stencil

open Render

/-! ## The machine -/

/-- What a routine is called with besides nodes: the fillings of slots, how many elements and components are
    open, and the scope. -/
structure Site where
  fillings : List Filling
  nesting : Nat
  scope : Scope

/-- A call that is going on, by its routine and what it has left to do. -/
inductive Call where
  /-- The siblings that are left, after what is known of those before. -/
  | siblings (site : Site) (progress : Progress) (left : List Node)
  /-- The rounds of a tag that are left, and what its directives come to at the end. -/
  | rounds (site : Site) (node : Node) (left : List Scope) (outcome : Except EvalError Outcome)
  /-- A tag, its directives aside, that is not open yet. -/
  | single (site : Site) (node : Node)
  /-- An element or a component that is open. -/
  | opened (site : Site) (node : Node)
  /-- A slot marker. -/
  | slot (site : Site) (name : Option String) (fallback : List Node)
  /-- A call that returns when the one above it has; whether it is that of a tag, and what it writes then. -/
  | waiting (isTag : Bool) (closing : String)

/-- Where rendering is. -/
inductive Phase where
  | running (calls : List Call) (written : String) (store : Store)
  | ended (result : Except ViewError String) (store : Store)

namespace Call

/-- What is known of the siblings before the next one, when the directives of a tag come to this. -/
def progressAfter (p : Progress) (tag : Tag) : Except EvalError Outcome → Progress
  | .ok outcome => p.after tag outcome
  | .error _ => p

/-- The calls after siblings have come to a tag: it is passed over, or its rounds are called. -/
def reached (e : Engine) (site : Site) (p : Progress) (tag : Tag) (n : Node) (rest : List Node) :
    List Call :=
  if p.skips tag then [.siblings site (p.afterSkipped tag) rest]
  else
    let expansion := Expansion.expand e.evaluator tag.directives site.scope
    [.rounds site n expansion.bodies expansion.outcome,
      .siblings site (progressAfter p tag expansion.outcome) rest]

/-- The calls of a slot marker: the content of the caller is rendered at the place it was written at, and
    without it the fallback at the place of the marker. -/
def filled (site : Site) (name : Option String) (fallback : List Node) : Call :=
  match site.fillings with
  | [] => .siblings site {} fallback
  | filling :: outer =>
    match filling.content.select name with
    | some content => .siblings ⟨outer, site.nesting, filling.scope⟩ {} content
    | none => .siblings site {} fallback

/-- What a call does next, on top of the calls below it. -/
def next (e : Engine) (below : List Call) (written : String) (s : Store) : Call → Phase
  | .siblings _ _ [] => .running below written s
  | .siblings site p (.text content _ :: rest) =>
    .running (.siblings site p rest :: below) (written ++ content) s
  | .siblings site p (.comment .. :: rest) => .running (.siblings site p rest :: below) written s
  | .siblings site p (.expression source escaped _ :: rest) =>
    match e.evaluator source site.scope with
    | .ok v => .running (.siblings site p rest :: below) (written ++ Interpolation.shown escaped v) s
    | .error err => .ended (.error (.expression err)) s
  | .siblings site p (.slot name fallback _ :: rest) =>
    .running (.slot site name fallback :: .siblings site p rest :: below) written s
  | .siblings site p (.element tag selfClosing children span :: rest) =>
    .running (reached e site p tag (.element tag selfClosing children span) rest ++ below) written s
  | .siblings site p (.component tag children slots span :: rest) =>
    .running (reached e site p tag (.component tag children slots span) rest ++ below) written s
  | .rounds _ _ [] (.ok _) => .running below written s
  | .rounds _ _ [] (.error err) => .ended (.error (.expression err)) s
  | .rounds site n (inner :: left) outcome =>
    .running (.single { site with scope := inner } n :: .rounds site n left outcome :: below) written s
  | .single site n =>
    match n.tag? with
    | none => .running below written s
    | some tag =>
      if site.nesting < e.options.maxDepth then
        .running (.opened { site with nesting := site.nesting + 1 } n :: .waiting false "" :: below) written s
      else .ended (.error (.nestedTooDeeply tag.name e.options.maxDepth)) s
  | .opened site (.element tag _ children _) =>
    match openingText e.evaluator site.scope tag with
    | .error err => .ended (.error (.expression err)) s
    | .ok opening =>
      if Element.isVoid tag.name then .running below (written ++ opening) s
      else
        .running (.siblings site {} children :: .waiting true ("</" ++ tag.name ++ ">") :: below)
          (written ++ opening) s
  | .opened site (.component tag children slots _) =>
    if site.fillings.length < e.options.maxComponentDepth then
      match e.componentIn tag.name s with
      | (.error err, s) => .ended (.error err) s
      | (.ok template, s) =>
        match Props.ofAttributes e.evaluator site.scope tag.attributes with
        | .error err => .ended (.error (.expression err)) s
        | .ok props =>
          let inner : Site := ⟨⟨⟨children, slots⟩, site.scope⟩ :: site.fillings, site.nesting, Scope.root props⟩
          .running (.siblings inner {} template.children :: .waiting true "" :: below) written s
    else .ended (.error (.recursiveComponent tag.name e.options.maxComponentDepth)) s
  | .opened _ _ => .running below written s
  | .slot site name fallback =>
    .running (filled site name fallback :: .waiting false "" :: below) written s
  | .waiting _ closing => .running below (written ++ closing) s

end Call

namespace Phase

/-- A step of the innermost call; without calls rendering ends with what was written. -/
def next (e : Engine) : Phase → Phase
  | .running [] written s => .ended (.ok written) s
  | .running (call :: below) written s => call.next e below written s
  | .ended result s => .ended result s

theorem next_running (e : Engine) (call : Call) (below : List Call) (written : String) (s : Store) :
    (running (call :: below) written s).next e = call.next e below written s := rfl

/-- The start of rendering a template. -/
def start (t : Template) (bindings : Bindings) (s : Store) : Phase :=
  .running [.siblings ⟨[], 0, Scope.root bindings⟩ {} t.children] "" s

/-- Some steps lead from one phase to another. -/
def Leads (e : Engine) (p q : Phase) : Prop := ∃ k, (next e)^[k] p = q

variable {e : Engine}

theorem Leads.refl (p : Phase) : Leads e p p := ⟨0, rfl⟩

theorem Leads.step {p q : Phase} (h : Leads e (p.next e) q) : Leads e p q := by
  obtain ⟨k, hk⟩ := h
  exact ⟨k + 1, hk⟩

theorem Leads.trans {p q r : Phase} (h : Leads e p q) (h' : Leads e q r) : Leads e p r := by
  obtain ⟨k, rfl⟩ := h
  obtain ⟨l, rfl⟩ := h'
  exact ⟨l + k, Function.iterate_add_apply _ _ _ _⟩

/-- The phase in which a call has come to a result. -/
def afterwards (below : List Call) (written : String) : Except ViewError String × Store → Phase
  | (.ok text, s) => .running below (written ++ text) s
  | (.error err, s) => .ended (.error err) s

end Phase

/-! ## Calls and renderings -/

open Phase

/-- A call leads to what a rendering comes to. -/
def Call.Computes (e : Engine) (call : Call) (m : Rendering String) : Prop :=
  ∀ below written s, Leads e (.running (call :: below) written s) (afterwards below written (m.run s))

namespace Call.Computes

variable {e : Engine} {call after : Call} {m m' : Rendering String}

/-- What is written before a rendering is written in front of its text. -/
theorem afterwards_append (m : Rendering String) (text : String) (below : List Call) (written : String)
    (s : Store) : afterwards below (written ++ text) (m.run s) =
      afterwards below written ((do let more ← m; pure (text ++ more) : Rendering String).run s) := by
  rw [Rendering.run_bind]
  rcases m.run s with ⟨_ | more, left⟩
  · rfl
  · show running below (written ++ text ++ more) left = running below (written ++ (text ++ more)) left
    rw [String.append_assoc]

/-- A call and the one below it, where both lead to renderings, lead to one after the other. -/
theorem andThen (h : Computes e call m) (h' : Computes e after m') (below : List Call) (written : String)
    (s : Store) : Leads e (.running (call :: after :: below) written s)
      (afterwards below written
        ((do let text ← m; let more ← m'; pure (text ++ more) : Rendering String).run s)) := by
  refine (h (after :: below) written s).trans ?_
  rw [Rendering.run_bind]
  rcases m.run s with ⟨err | text, left⟩
  · exact .refl _
  · dsimp only
    rw [← afterwards_append]
    exact h' below (written ++ text) left

/-- A call that only returns writes nothing. -/
theorem of_returns (hnext : ∀ below written s, call.next e below written s = .running below written s) :
    Computes e call (pure "") := by
  intro below written s
  refine .step ?_
  rw [Phase.next_running, hnext]
  show Leads e (running below written s) (running below (written ++ "") s)
  rw [String.append_empty]
  exact .refl _

theorem waiting (isTag : Bool) (closing : String) : Computes e (.waiting isTag closing) (pure closing) :=
  fun _ _ _ => ⟨1, rfl⟩

/-- A call that writes and then is another one. -/
theorem of_writes {text : String} (h : Computes e after m)
    (hnext : ∀ below written s,
      call.next e below written s = .running (after :: below) (written ++ text) s) :
    Computes e call (do let more ← m; pure (text ++ more)) := by
  intro below written s
  refine .step ?_
  rw [Phase.next_running, hnext, ← afterwards_append]
  exact h below (written ++ text) s

/-- The rounds of a tag write the texts of its bodies, and then what its directives come to is known. -/
theorem rounds {f : List Filling} {nesting : Nat} (scope : Scope) {n : Node}
    (h : ∀ inner, Computes e (.single ⟨f, nesting, inner⟩ n) (once e f nesting inner n))
    (left : List Scope) (outcome : Except EvalError Outcome) :
    Computes e (.rounds ⟨f, nesting, scope⟩ n left outcome) (do
      let texts ← left.mapM fun inner => once e f nesting inner n
      let _ ← evaluated outcome
      pure (String.join texts)) := by
  induction left with
  | nil =>
    cases outcome with
    | ok outcome => exact of_returns fun _ _ _ => rfl
    | error err => exact fun _ _ _ => ⟨1, rfl⟩
  | cons inner left ih =>
    intro below written s
    refine .step ?_
    have hrest := (h inner).andThen ih below written s
    show Leads e (running (_ :: Call.rounds _ n left outcome :: below) written s) _
    simpa [bind_assoc, String.join_cons] using hrest

/-- Siblings have come to a tag. -/
theorem reached {f : List Filling} {nesting : Nat} {scope : Scope} {n : Node} {tag : Tag}
    (htag : n.tag? = some tag) {rest : List Node}
    (hsingle : ∀ inner, Computes e (.single ⟨f, nesting, inner⟩ n) (once e f nesting inner n))
    (hrest : ∀ p, Computes e (.siblings ⟨f, nesting, scope⟩ p rest) (nodes e f nesting scope p rest))
    (p : Progress) (below : List Call) (written : String) (s : Store) :
    Leads e (.running (Call.reached e ⟨f, nesting, scope⟩ p tag n rest ++ below) written s)
      (afterwards below written ((nodes e f nesting scope p (n :: rest)).run s)) := by
  rw [nodes_cons, sibling, htag]
  unfold Call.reached
  dsimp only
  split
  · simpa [map_empty_append] using hrest (p.afterSkipped tag) below written s
  · have hrounds := (rounds scope hsingle
      (Expansion.expand e.evaluator tag.directives scope).bodies
      (Expansion.expand e.evaluator tag.directives scope).outcome).andThen
        (hrest (progressAfter p tag (Expansion.expand e.evaluator tag.directives scope).outcome))
        below written s
    unfold taggedText
    cases houtcome : (Expansion.expand e.evaluator tag.directives scope).outcome with
    | ok outcome => simpa [houtcome, evaluated, progressAfter] using hrounds
    | error err => simpa [houtcome, evaluated, progressAfter] using hrounds

/-- Where an element or a component may still be opened, a tag is rendered as it is when it is open. -/
theorem opened {f : List Filling} {nesting : Nat} {scope : Scope} {n : Node} (tag : Tag)
    (htag : n.tag? = some tag)
    (h : nesting < e.options.maxDepth →
      Computes e (.opened ⟨f, nesting + 1, scope⟩ n) m) :
    Computes e (.single ⟨f, nesting, scope⟩ n)
      (if nesting < e.options.maxDepth then m
        else throw (.nestedTooDeeply tag.name e.options.maxDepth)) := by
  intro below written s
  refine .step ?_
  rw [Phase.next_running]
  simp only [Call.next, htag]
  split
  · next hnesting => simpa using (h hnesting).andThen (waiting false "") below written s
  · exact .refl _

mutual

/-- The call of siblings leads to what rendering them comes to. -/
theorem siblings (f : List Filling) (nesting : Nat) (scope : Scope) (p : Progress) (ns : List Node) :
    Computes e (.siblings ⟨f, nesting, scope⟩ p ns) (nodes e f nesting scope p ns) :=
  match ns with
  | [] => by
    rw [nodes]
    exact of_returns fun _ _ _ => rfl
  | .text content _ :: rest => by
    rw [nodes]
    exact (siblings f nesting scope p rest).of_writes fun _ _ _ => rfl
  | .comment .. :: rest => by
    rw [nodes]
    exact fun below written s => .step (siblings f nesting scope p rest below written s)
  | .expression source escaped _ :: rest => by
    rw [nodes]
    have hrest := siblings f nesting scope p rest
    cases hv : e.evaluator source scope with
    | ok v =>
      refine hrest.of_writes fun below written s => ?_
      simp only [Call.next, hv]
    | error err =>
      intro below written s
      refine .step ?_
      rw [Phase.next_running]
      simp only [Call.next, hv]
      exact .refl _
  | .slot name fallback span :: rest => by
    intro below written s
    have hslot := (slot f nesting scope name fallback span).andThen (siblings f nesting scope p rest)
      below written s
    refine .step ?_
    show Leads e (running (.slot _ name fallback :: .siblings _ p rest :: below) written s) _
    simpa [nodes_cons, sibling, Node.tag?] using hslot
  | .element tag selfClosing children span :: rest => fun below written s =>
    .step (reached rfl (fun inner => single f nesting inner (.element tag selfClosing children span))
      (fun q => siblings f nesting scope q rest) p below written s)
  | .component tag children slots span :: rest => fun below written s =>
    .step (reached rfl (fun inner => single f nesting inner (.component tag children slots span))
      (fun q => siblings f nesting scope q rest) p below written s)
termination_by (e.options.maxDepth - nesting, f.length, sizeOf ns, 0)

theorem slot (f : List Filling) (nesting : Nat) (scope : Scope) (name : Option String)
    (fallback : List Node) (span : Span) :
    Computes e (.slot ⟨f, nesting, scope⟩ name fallback)
      (untaggedText e f nesting scope (.slot name fallback span)) := by
  have hfilled : Computes e (filled ⟨f, nesting, scope⟩ name fallback)
      (untaggedText e f nesting scope (.slot name fallback span)) := by
    unfold filled untaggedText
    cases f with
    | nil => exact siblings [] nesting scope {} fallback
    | cons filling outer =>
      cases hcontent : filling.content.select name with
      | some content => simpa only [hcontent] using siblings outer nesting filling.scope {} content
      | none => simpa only [hcontent] using siblings (filling :: outer) nesting scope {} fallback
  intro below written s
  refine .step ?_
  rw [Phase.next_running, Call.next]
  simpa using hfilled.andThen (waiting false "") below written s
termination_by (e.options.maxDepth - nesting, f.length, sizeOf fallback, 1)

theorem single (f : List Filling) (nesting : Nat) (scope : Scope) (n : Node) :
    Computes e (.single ⟨f, nesting, scope⟩ n) (once e f nesting scope n) := by
  cases n with
  | element tag selfClosing children span =>
    rw [once]
    refine opened tag rfl fun hnesting below written s => .step ?_
    have hchildren := siblings f (nesting + 1) scope {} children
    rw [Phase.next_running]
    simp only [Call.next]
    cases openingText e.evaluator scope tag with
    | error err => exact .refl _
    | ok opening =>
      dsimp only [evaluated]
      split
      · exact .refl _
      · next hvoid =>
        have hinside := hchildren.andThen (waiting true ("</" ++ tag.name ++ ">")) below
          (written ++ opening) s
        rw [afterwards_append] at hinside
        simpa [hvoid, String.append_assoc] using hinside
  | component tag children slots span =>
    rw [once]
    refine opened tag rfl fun hnesting below written s => .step ?_
    rw [Phase.next_running]
    simp only [Call.next]
    split
    · rw [Rendering.run_bind, show (Render.component e tag.name).run s = e.componentIn tag.name s from rfl]
      rcases e.componentIn tag.name s with ⟨err | template, left⟩
      · exact .refl _
      · dsimp only
        cases Props.ofAttributes e.evaluator scope tag.attributes with
        | error err => exact .refl _
        | ok props =>
          have hinside := siblings (⟨⟨children, slots⟩, scope⟩ :: f) (nesting + 1) (Scope.root props) {}
            template.children
          simpa [evaluated] using hinside.andThen (waiting true "") below written left
    · exact .refl _
  | text => simpa only [once] using of_returns fun _ _ _ => rfl
  | comment => simpa only [once] using of_returns fun _ _ _ => rfl
  | expression => simpa only [once] using of_returns fun _ _ _ => rfl
  | slot => simpa only [once] using of_returns fun _ _ _ => rfl
termination_by (e.options.maxDepth - nesting, f.length, sizeOf n, 0)

end

end Call.Computes

/-- Rendering a template ends, in some number of steps, with its answer and the store it leaves. -/
theorem Phase.start_leads (e : Engine) (t : Template) (bindings : Bindings) (s : Store) :
    Leads e (start t bindings s)
      (.ended ((template e t bindings).answer s) ((template e t bindings).storeAfter s)) := by
  have hrun := Call.Computes.siblings (e := e) [] 0 (Scope.root bindings) {} t.children [] "" s
  refine hrun.trans ?_
  unfold Rendering.answer Rendering.storeAfter template
  rcases (nodes e [] 0 (Scope.root bindings) {} t.children).run s with ⟨err | text, left⟩
  · exact .refl _
  · refine ⟨1, ?_⟩
    show ended (.ok ("" ++ text)) left = _
    rw [String.empty_append]

end Stencil
