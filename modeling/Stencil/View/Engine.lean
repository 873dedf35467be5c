import Stencil.Expression.Eval
import Stencil.Text.Quoted
import Stencil.View.Registry
import Stencil.View.Store
/-
  The engine: components, where markup is found, how expressions are evaluated, and the store of what has
  been compiled.

  Compiling asks the store first, unless the options forbid it, and a failure is not kept.  Operations
  that may change the store hand back the store or the engine with their answer.
-/

namespace Stencil

/-- What rendering and compiling depend on besides the templates. -/
structure EngineSettings where
  maxComponentDepth : Nat := 64
  maxDepth : Nat := 128
  tagMarker : String := "x-"
  cache : Bool := true
deriving DecidableEq, Repr, Inhabited

namespace EngineSettings

/-- The options that compiling depends on. -/
def dialect (o : EngineSettings) : Dialect := ⟨o.tagMarker, o.maxDepth⟩

/-- A description of the options. -/
def describe (o : EngineSettings) : String :=
  "EngineOptions \x7b max_component_depth: " ++ Decimal.natText o.maxComponentDepth ++
    ", max_depth: " ++ Decimal.natText o.maxDepth ++
    ", component_prefix: " ++ Text.quoted o.tagMarker ++
    ", cache: " ++ (if o.cache then "true" else "false") ++ " \x7d"

end EngineSettings

/-- Markup as it was found, and the path it was found at. -/
structure Loaded where
  path : Path
  markup : String
deriving DecidableEq, Repr

/-- A place where markup is found by paths. -/
structure Loader where
  load : Path → Except ViewError Loaded

/-- Markup kept in memory, by paths that are told apart by their components; the last one counts. -/
def Loader.memory (templates : List (Path × String)) : Loader :=
  ⟨fun path =>
    match templates.reverse.find? fun entry => entry.1.same path with
    | some (_, markup) => .ok ⟨path, markup⟩
    | none => .error (.notFound path)⟩

/-- A change to the bindings of a view, made before it is rendered. -/
abbrev Processor := ViewSource → Bindings → Bindings

/-- Bind values in every view, except names that are bound already. -/
def Processor.shared (shared : Bindings) : Processor := fun _ bindings =>
  shared.foldl (fun all entry =>
    if Ordered.has all entry.1 then all else Ordered.put all entry.1 entry.2) bindings

/-- An engine. -/
structure Engine where
  registry : Registry := ∅
  loader : Loader
  evaluator : Evaluator := Functions.builtin.evaluator
  store : Store := {}
  processors : List Processor := []
  options : EngineSettings := {}

namespace Engine

/-- The markup of a source. -/
def markupOf (e : Engine) : ViewSource → Except ViewError String
  | .inline markup => .ok markup
  | .path p => (e.loader.load p).map Loaded.markup

/-- Compile a source without asking the store. -/
def compileFresh (e : Engine) (source : ViewSource) : Except ViewError Template :=
  match e.markupOf source with
  | .error err => .error err
  | .ok markup =>
    match Template.compile e.options.dialect markup with
    | .ok t => .ok t
    | .error err => .error (.template err)

/-- Compile a source, or take the template from the store. -/
def compileUnder (e : Engine) (key : StoreKey) (source : ViewSource) (store : Store) :
    Except ViewError Template × Store :=
  if e.options.cache then store.fetch key fun _ => e.compileFresh source
  else (e.compileFresh source, store)

/-- The template of a source. -/
def compileIn (e : Engine) (source : ViewSource) (store : Store) :
    Except ViewError Template × Store :=
  e.compileUnder (StoreKey.ofSource source) source store

/-- The template of a registered component. -/
def componentIn (e : Engine) (name : String) (store : Store) :
    Except ViewError Template × Store :=
  match e.registry.get? name with
  | none => (.error (.unknownComponent name), store)
  | some d => e.compileUnder (.component d.name) d.source store

/-- Compile a source and keep what the store has become. -/
def compile (e : Engine) (source : ViewSource) : Except ViewError Template × Engine :=
  let (result, store) := e.compileIn source e.store
  (result, { e with store := store })

/-- The template of a component, keeping what the store has become. -/
def templateOf (e : Engine) (name : String) : Except ViewError Template × Engine :=
  let (result, store) := e.componentIn name e.store
  (result, { e with store := store })

/-- The name a component is registered under: with the mark of components in front. -/
def componentName (e : Engine) (name : String) : String :=
  if e.options.dialect.isComponent name then name else e.options.tagMarker ++ name

/-- Register a component.  What was compiled under its name is forgotten unless it stays valid. -/
def register (e : Engine) (name : String) (source : ViewSource) (origin : Option Path)
    (vendor : Bool) : Except ViewError (Registration × Engine) :=
  let name := e.componentName name
  match e.registry.register ⟨name, source, origin, vendor⟩ with
  | .error err => .error err
  | .ok (done, registry) =>
    let store := if done = .ignored then e.store else e.store.erase (.component name)
    .ok (done, { e with registry := registry, store := store })

/-- Compile components one after the other and collect the failures. -/
def brokenAmong (e : Engine) : List String → Store → List (String × ViewError) × Store
  | [], store => ([], store)
  | name :: names, store =>
    let (result, store) := e.componentIn name store
    let (more, store) := brokenAmong e names store
    match result with
    | .ok _ => (more, store)
    | .error err => ((name, err) :: more, store)

/-- Compile every registered component and collect the failures. -/
def brokenComponents (e : Engine) : List (String × ViewError) × Engine :=
  let (failures, store) := e.brokenAmong e.registry.names e.store
  (failures, { e with store := store })

/-- The bindings of a view after all processors, in the order they were added. -/
def finalBindings (e : Engine) (source : ViewSource) (bindings : Bindings) : Bindings :=
  e.processors.foldl (fun bindings change => change source bindings) bindings

/-- A description of an engine. -/
def describe (e : Engine) : String :=
  "ViewEngine \x7b components: " ++ Decimal.natText e.registry.size ++
    ", processors: " ++ Decimal.natText e.processors.length ++
    ", cached: " ++ Decimal.natText e.store.size ++
    ", options: " ++ e.options.describe ++ " \x7d"

end Engine

end Stencil
