import Mathlib.Logic.Relation
import Stencil.Expression.Memo
import Stencil.Proofs.Project.Discovered
import Stencil.Proofs.Project.Reports
import Stencil.Proofs.View.Correspondence
/-
  The pages of a run do not influence each other.

  The pages share a store of compiled templates and a memo of parsed expressions, and each of them may be the
  one that fills an entry.  A memo is never noticed, since it keeps nothing but what parsing gives.  Of a
  store the invariant is that it is faithful: under the path of each page is what the page compiles to, and
  it answers for every component as an empty store does.

  One page leaves a faithful store and comes out as it does alone, so all pages do, in any order.  Paths
  that the store does not tell apart are where this may fail: two pages with such paths must stand for the
  same markup.
-/

namespace Stencil

/-! ## Expressions while pages are processed -/

namespace Memo

variable {fs : Functions} {μ after : Memo} {evaluate : Evaluator}

/-- A memo becomes another one when texts are asked for. -/
def Leads : Memo → Memo → Prop := Relation.ReflTransGen fun μ after => ∃ text, after = (μ.parse text).2

/-- An evaluator that answers from a memo while the memo becomes another one: each question at some moment. -/
structure Serves (fs : Functions) (μ after : Memo) (evaluate : Evaluator) : Prop where
  leads : μ.Leads after
  answers : ∀ text scope, ∃ now : Memo, μ.Leads now ∧ now.Leads after ∧
    evaluate text scope = (now.evaluate fs text scope).1

theorem Serves.eq_evaluator (h : Serves fs μ after evaluate) : evaluate = fs.evaluator := by
  funext text scope
  obtain ⟨now, -, -, hnow⟩ := h.answers text scope
  rw [hnow, answer_evaluate]

theorem serves_evaluator (fs : Functions) (μ : Memo) : Serves fs μ μ fs.evaluator where
  leads := .refl
  answers := fun text scope => ⟨μ, .refl, .refl, (μ.answer_evaluate fs text scope).symm⟩

end Memo

/-! ## Faithful stores -/

namespace Engine

variable {e : Engine} {files : List Path} {s : Store} {p : Path}

/-- Files that the store does not tell apart stand for the same markup. -/
def ToldApart (e : Engine) (files : List Path) : Prop :=
  e.options.cache = true → ∀ p ∈ files, ∀ q ∈ files, p.same q = true → ∀ markup,
    e.markupOf (.path p) = .ok markup → e.markupOf (.path q) = .ok markup

/-- The pages that a project finds are always told apart. -/
theorem toldApart_pages (e : Engine) (settings : Settings) (filesUnder : Path → List Path) :
    e.ToldApart (Discovery.pages settings filesUnder) := by
  intro _ p hp q hq hsame markup hmarkup
  rwa [← Discovery.eq_of_same_of_mem_pages hp hq hsame]

theorem ToldApart.compileFresh (h : e.ToldApart files) (hcache : e.options.cache = true) {q : Path}
    (hp : p ∈ files) (hq : q ∈ files) (hsame : p.same q = true) {t : Template}
    (ht : e.compileFresh (.path p) = .ok t) : e.compileFresh (.path q) = .ok t := by
  obtain ⟨markup, hmarkup, hcompile⟩ := compileFresh_eq_ok_iff.1 ht
  exact compileFresh_eq_ok_iff.2 ⟨markup, h hcache p hp q hq hsame markup hmarkup, hcompile⟩

/-- What a store has for pages is what they compile to, and what it answers for components is what an empty
    store does. -/
structure Faithful (e : Engine) (files : List Path) (s : Store) : Prop where
  page : ∀ p ∈ files, ∀ t, s.get? (.path p) = some t → e.compileFresh (.path p) = .ok t
  agree : e.Agree {} s

theorem faithful_empty (e : Engine) (files : List Path) : e.Faithful files {} where
  page := by
    intro p _ t ht
    cases ht
  agree := .refl {}

/-- What is put under the path of a page is not seen by components. -/
theorem agree_insert_path (e : Engine) (s : Store) (p : Path) (t : Template) :
    e.Agree s (s.insert (.path p) t) := by
  intro name
  unfold componentIn
  cases e.registry.get? name with
  | none => rfl
  | some d =>
    refine answer_compileUnder_congr ?_
    rw [Store.get?_insert, if_neg (by simp [StoreKey.same])]

theorem Faithful.insert_path (h : e.Faithful files s) (htold : e.ToldApart files)
    (hcache : e.options.cache = true) (hp : p ∈ files) {t : Template}
    (ht : e.compileFresh (.path p) = .ok t) : e.Faithful files (s.insert (.path p) t) where
  page := by
    intro q hq u hu
    rw [Store.get?_insert] at hu
    split at hu
    · next hsame =>
      obtain rfl := Option.some.inj hu
      exact htold.compileFresh hcache hp hq hsame ht
    · exact h.page q hq u hu
  agree := h.agree.trans (e.agree_insert_path s p t)

/-- From a faithful store a page is compiled as if anew, and a faithful store is left. -/
theorem Faithful.compileIn (h : e.Faithful files s) (htold : e.ToldApart files) (hp : p ∈ files) :
    (e.compileIn (.path p) s).1 = e.compileFresh (.path p) ∧
      e.Faithful files (e.compileIn (.path p) s).2 := by
  unfold Engine.compileIn
  rcases e.compileUnder_cases (StoreKey.ofSource (.path p)) (.path p) s with
    ⟨t, -, hget, heq⟩ | ⟨t, hcache, -, ht, heq⟩ | ⟨-, heq⟩
  · rw [heq]
    exact ⟨(h.page p hp t hget).symm, h⟩
  · rw [heq]
    exact ⟨ht.symm, h.insert_path htold hcache hp ht⟩
  · rw [heq]
    exact ⟨rfl, h⟩

/-- Stores that agree have the same components fail. -/
theorem answer_brokenAmong_congr {s' : Store} (h : e.Agree s s') (names : List String) :
    (e.brokenAmong names s).1 = (e.brokenAmong names s').1 := by
  induction names generalizing s s' with
  | nil => rfl
  | cons name names ih =>
    have hafter : e.Agree (e.componentIn name s).2 (e.componentIn name s').2 := fun other =>
      (e.agree_componentIn name s other).symm.trans ((h other).trans (e.agree_componentIn name s' other))
    have hmore := ih hafter
    have hname := h name
    unfold brokenAmong
    dsimp only
    rw [hname]
    cases (e.componentIn name s').1 <;> simp [hmore]

theorem brokenAmong_withStore (e : Engine) (left : Store) (names : List String) (s : Store) :
    { e with store := left }.brokenAmong names s = e.brokenAmong names s := by
  induction names generalizing s with
  | nil => rfl
  | cons name names ih =>
    unfold brokenAmong
    simp only [ih]
    rfl

/-! ## Rendering -/

/-- Asking for a component leaves what is kept under paths. -/
theorem get?_path_componentIn (e : Engine) (name : String) (s : Store) (p : Path) :
    (e.componentIn name s).2.get? (.path p) = s.get? (.path p) := by
  unfold componentIn
  cases e.registry.get? name with
  | none => rfl
  | some d =>
    dsimp only
    rcases e.compileUnder_cases (.component d.name) d.source s with
      ⟨_, -, -, heq⟩ | ⟨_, -, -, -, heq⟩ | ⟨-, heq⟩
    · rw [heq]
    · rw [heq, Store.get?_insert, if_neg (by simp [StoreKey.same])]
    · rw [heq]

/-- Rendering leaves what is kept under paths. -/
theorem closed_get?_path (e : Engine) :
    Rendering.Closed e fun m => ∀ s p, (m.storeAfter s).get? (.path p) = s.get? (.path p) where
  pure := fun _ _ _ => rfl
  throw := fun _ _ _ => rfl
  component := e.get?_path_componentIn
  bind := by
    intro _ _ m f hm hf s p
    rw [Rendering.storeAfter_bind]
    split
    · rw [hf, hm]
    · exact hm s p

theorem Faithful.storeAfter_template (h : e.Faithful files s) (t : Template) (bindings : Bindings) :
    e.Faithful files ((Render.template e t bindings).storeAfter s) where
  page := by
    intro p hp u hu
    rw [Render.template, e.closed_get?_path.nodes] at hu
    exact h.page p hp u hu
  agree := h.agree.trans ((Render.steady_nodes e [] 0 (Scope.root bindings) {} t.children).agree s)

/-- From a faithful store a page is rendered as from an empty one. -/
theorem Faithful.answer_template (h : e.Faithful files s) (t : Template) (bindings : Bindings) :
    (Render.template e t bindings).answer s = (Render.template e t bindings).answer {} :=
  ((Render.steady_nodes e [] 0 (Scope.root bindings) {} t.children).answer_eq {} s h.agree).symm

/-- The store that an engine has at first plays no part in what it renders from another one. -/
theorem answer_template_withStore (e : Engine) (left s : Store) (t : Template) (bindings : Bindings) :
    (Render.template { e with store := left } t bindings).answer s =
      (Render.template e t bindings).answer s :=
  Render.answer_template_congr { e with store := left } e rfl rfl rfl (fun _ => rfl) t bindings

theorem Faithful.withStore (h : e.Faithful files s) (left : Store) :
    { e with store := left }.Faithful files s :=
  ⟨h.page, h.agree⟩

theorem Faithful.compile (h : e.Faithful files s) (htold : e.ToldApart files) (hp : p ∈ files) :
    ∃ left, e.Faithful files left ∧
      { e with store := s }.compile (.path p) =
        (e.compileFresh (.path p), { e with store := left }) := by
  obtain ⟨hanswer, hleft⟩ := h.compileIn htold hp
  refine ⟨_, hleft, ?_⟩
  rw [← hanswer]
  rfl

theorem Faithful.render (h : e.Faithful files s) (htold : e.ToldApart files) (hp : p ∈ files)
    {t : Template} (ht : e.compileFresh (.path p) = .ok t) (bindings : Bindings) :
    ∃ left, e.Faithful files left ∧
      { e with store := s }.render (.path p) bindings =
        ((Render.template e t (e.finalBindings (.path p) bindings)).answer {},
          { e with store := left }) := by
  obtain ⟨hanswer, hleft⟩ := h.compileIn htold hp
  rw [ht] at hanswer
  have hrendered := (hleft.withStore s).storeAfter_template t (e.finalBindings (.path p) bindings)
  refine ⟨_, hrendered.withStore e.store, ?_⟩
  have hcompiled : { e with store := s }.compileIn (.path p) s =
      (.ok t, (e.compileIn (.path p) s).2) := by
    rw [← hanswer]
    rfl
  rw [← hleft.answer_template, ← answer_template_withStore e s]
  unfold Engine.render
  rw [hcompiled]
  rfl

end Engine

/-! ## One page -/

namespace Run

open Engine

variable {e : Engine} {files : List Path} {s : Store} {p : Path}

/-- What becomes of a page that is compiled anew and rendered from an empty store. -/
def outcome (e : Engine) (checkOnly : Bool) (bindings : Bindings) (file : Path) : PageResult :=
  match e.compileFresh (.path file) with
  | .error err => .failed ⟨file, position? err (e.markupOf (.path file)).toOption, err⟩
  | .ok t =>
    if checkOnly then .checked
    else
      match (Render.template e t (e.finalBindings (.path file) bindings)).answer {} with
      | .ok html => .rendered html
      | .error err => .failed ⟨file, none, err⟩

/-- From a faithful store a page comes out as it does alone, and a faithful store is left. -/
theorem runPage_of_faithful (h : e.Faithful files s) (htold : e.ToldApart files) (hp : p ∈ files)
    (checkOnly : Bool) (bindings : Bindings) :
    ∃ left, e.Faithful files left ∧
      runPage { e with store := s } checkOnly bindings p =
        (outcome e checkOnly bindings p, { e with store := left }) := by
  obtain ⟨left, hleft, hcompile⟩ := h.compile htold hp
  unfold runPage outcome
  rw [hcompile]
  cases ht : e.compileFresh (.path p) with
  | error err => exact ⟨left, hleft, rfl⟩
  | ok t =>
    dsimp only
    split
    · exact ⟨left, hleft, rfl⟩
    · -- the page is compiled a second time, from what the first time has left
      obtain ⟨left', hleft', hrender⟩ := hleft.render htold hp ht bindings
      rw [hrender]
      refine ⟨left', hleft', ?_⟩
      cases (Render.template e t (e.finalBindings (.path p) bindings)).answer {} <;> rfl

/-! ## Pages in any order -/

/-- What the pages of a run share. -/
structure Shared where
  store : Store := {}
  memo : Memo := ∅

/-- Pages are processed one after the other on what they share, the first of the list first.  Expressions are
    answered from the memo, which goes on growing. -/
inductive Processed (e : Engine) (fs : Functions) (checkOnly : Bool) (bindings : Bindings) :
    Shared → List (Path × PageResult) → Shared → Prop where
  | done (shared : Shared) : Processed e fs checkOnly bindings shared [] shared
  | page {shared after : Shared} {memo : Memo} {evaluate : Evaluator} {file : Path} {result : PageResult}
      {left : Engine} {results : List (Path × PageResult)}
      (serves : shared.memo.Serves fs memo evaluate)
      (ran : runPage { e with store := shared.store, evaluator := evaluate } checkOnly bindings file =
        (result, left))
      (rest : Processed e fs checkOnly bindings ⟨left.store, memo⟩ results after) :
      Processed e fs checkOnly bindings shared ((file, result) :: results) after

variable {fs : Functions} {checkOnly : Bool} {bindings : Bindings}

/-- Whichever pages have gone before, each page comes out as it does alone. -/
theorem Processed.outcomes (hevaluator : e.evaluator = fs.evaluator) (htold : e.ToldApart files)
    {shared after : Shared} {results : List (Path × PageResult)}
    (h : Processed e fs checkOnly bindings shared results after)
    (hfaithful : e.Faithful files shared.store) (hfiles : results.map Prod.fst ⊆ files) :
    results = (results.map Prod.fst).map fun file => (file, outcome e checkOnly bindings file) := by
  induction h with
  | done => rfl
  | @page shared after memo evaluate file result left results serves ran rest ih =>
    obtain ⟨hfile, hrest⟩ : file ∈ files ∧ results.map Prod.fst ⊆ files := List.cons_subset.1 hfiles
    obtain ⟨store, hstore, hran⟩ := runPage_of_faithful hfaithful htold hfile checkOnly bindings
    rw [serves.eq_evaluator, ← hevaluator] at ran
    obtain ⟨rfl, rfl⟩ := Prod.mk.inj (ran.symm.trans hran)
    exact congrArg _ (ih hstore hrest)

/-- Pages can be processed in any order. -/
theorem exists_processed (e : Engine) (fs : Functions) (checkOnly : Bool) (bindings : Bindings)
    (order : List Path) (shared : Shared) :
    ∃ results after, Processed e fs checkOnly bindings shared results after ∧
      results.map Prod.fst = order := by
  induction order generalizing shared with
  | nil => exact ⟨[], shared, .done shared, rfl⟩
  | cons file order ih =>
    obtain ⟨results, after, hprocessed, horder⟩ := ih
      ⟨(runPage { e with store := shared.store, evaluator := fs.evaluator } checkOnly bindings file).2.store,
        shared.memo⟩
    exact ⟨_, after, .page (shared.memo.serves_evaluator fs) rfl hprocessed, congrArg _ horder⟩

theorem runPages_of_faithful (htold : e.ToldApart files) (hfaithful : e.Faithful files s)
    (checkOnly : Bool) (bindings : Bindings) {pages : List Path} (hpages : pages ⊆ files) :
    ∃ left, e.Faithful files left ∧
      runPages { e with store := s } checkOnly bindings pages =
        (pages.map fun f => (f, outcome e checkOnly bindings f), { e with store := left }) := by
  induction pages generalizing s with
  | nil => exact ⟨s, hfaithful, rfl⟩
  | cons file pages ih =>
    obtain ⟨hfile, hpages⟩ := List.cons_subset.1 hpages
    obtain ⟨left, hleft, hpage⟩ := runPage_of_faithful hfaithful htold hfile checkOnly bindings
    obtain ⟨last, hlast, hrest⟩ := ih hleft hpages
    refine ⟨last, hlast, ?_⟩
    rw [runPages, hpage]
    dsimp only
    rw [hrest]
    rfl

/-! ## Whole runs -/

theorem registerAll_fresh {components : List FoundComponent} {after : Engine} (hstore : e.store = {})
    (h : registerAll e components = .ok after) : after.store = {} ∧ after.evaluator = e.evaluator := by
  induction components generalizing e with
  | nil =>
    obtain rfl := Except.ok.inj h
    exact ⟨hstore, rfl⟩
  | cons c components ih =>
    rw [registerAll] at h
    cases hregister : e.register c.name (.path c.path) (some c.path) c.vendor with
    | error err =>
      rw [hregister] at h
      cases h
    | ok done =>
      rw [hregister] at h
      obtain ⟨hempty, hevaluator⟩ : done.2.store = {} ∧ done.2.evaluator = e.evaluator := by
        unfold Engine.register at hregister
        dsimp only at hregister
        split at hregister
        · cases hregister
        · cases hregister
          refine ⟨?_, rfl⟩
          dsimp only
          split <;> simp [hstore, Store.erase]
      rw [← hevaluator]
      exact ih hempty h

/-- The engine of a run has compiled nothing yet. -/
theorem engine_fresh {settings : Settings} {found : List (Path × Except ViewError Loaded)}
    {components : List FoundComponent} (h : engine settings found components = .ok e) :
    e.store = {} ∧ e.evaluator = Functions.builtin.evaluator :=
  registerAll_fresh rfl h

/-- A page alone comes out as it does when it is compiled anew and rendered from an empty store. -/
theorem runPage_eq_outcome (hstore : e.store = {}) (checkOnly : Bool) (bindings : Bindings) (file : Path) :
    (runPage e checkOnly bindings file).1 = outcome e checkOnly bindings file := by
  have htold : e.ToldApart [file] := by
    intro _ p hp q hq _ markup hmarkup
    rwa [List.mem_singleton.1 hq, ← List.mem_singleton.1 hp]
  obtain ⟨left, -, hpage⟩ :=
    runPage_of_faithful (e.faithful_empty [file]) htold List.mem_cons_self checkOnly bindings
  rw [← hstore] at hpage
  rw [hpage]

/-- The same components fail after pages as before them. -/
theorem brokenComponents_of_faithful (hstore : e.store = {}) (h : e.Faithful files s) :
    { e with store := s }.brokenComponents.1 = e.brokenComponents.1 := by
  have hsame := answer_brokenAmong_congr h.agree e.registry.names
  simp only [brokenComponents, brokenAmong_withStore, hstore, hsame]

theorem pages_run_alone (hstore : e.store = {}) (htold : e.ToldApart files) (settings : Settings)
    (a : Arguments) (bindings : Bindings) (tree : Tree) :
    let results := files.map fun file => (file, outcome e a.check bindings file)
    ∃ broken : List Failure,
      broken.map Failure.error = (if a.check then e.brokenComponents.1.map Prod.snd else []) ∧
      ((pages Tree.disk settings a e bindings files).run tree).1 =
        match ((emit Tree.disk settings.templateRoots a.outDir results).run tree).1 with
        | (events, some err) => (events, .error err)
        | (events, none) =>
          (events ++ closing a files.length (broken ++ failures results),
            .ok ⟨files.length, (broken ++ failures results).length⟩) := by
  intro results
  obtain ⟨left, hleft, hpages⟩ := runPages_of_faithful htold (e.faithful_empty files) a.check bindings
    (List.Subset.refl files)
  rw [← hstore] at hpages
  have hran : runPages e a.check bindings files = (results, { e with store := left }) := hpages
  obtain ⟨broken, herrors, hrun⟩ := pages_run settings a e bindings files tree
  rw [hran] at herrors hrun
  refine ⟨broken, ?_, congrArg Prod.fst hrun⟩
  rw [herrors]
  split
  · rw [brokenComponents_of_faithful hstore hleft]
  · rfl

/-- Pages do not influence each other.  In every order the pages of a run come out as each of them does alone,
    and the run tells of them in the order of the list, with the failures of components before those of
    pages. -/
theorem pages_apart {settings : Settings} {found : List (Path × Except ViewError Loaded)}
    {components : List FoundComponent} (he : engine settings found components = .ok e) (a : Arguments)
    (bindings : Bindings) (htold : e.ToldApart files) :
    let alone := fun file => (runPage e a.check bindings file).1
    (∀ order : List Path, order.Perm files →
      (∃ results after, results.map Prod.fst = order ∧
        Processed e Functions.builtin a.check bindings {} results after) ∧
      ∀ results after, results.map Prod.fst = order →
        Processed e Functions.builtin a.check bindings {} results after →
        results = order.map fun file => (file, alone file)) ∧
    ∀ tree : Tree,
      let results := files.map fun file => (file, alone file)
      let shown := ((emit Tree.disk settings.templateRoots a.outDir results).run tree).1
      (∃ broken : List Failure,
        broken.map Failure.error = (if a.check then e.brokenComponents.1.map Prod.snd else []) ∧
        ((pages Tree.disk settings a e bindings files).run tree).1 =
          match shown with
          | (events, some err) => (events, .error err)
          | (events, none) =>
            (events ++ closing a files.length (broken ++ failures results),
              .ok ⟨files.length, (if a.check then e.brokenComponents.1.length else 0) +
                files.countP fun file => (alone file).isFailed⟩)) ∧
      shown.1.filterMap Event.page? <+: files.filter (fun file => (alone file).isRendered) ∧
      (shown.2 = none →
        shown.1.filterMap Event.page? = files.filter fun file => (alone file).isRendered) ∧
      (a.outDir = none → shown.2 = none) := by
  intro alone
  obtain ⟨hstore, hevaluator⟩ := engine_fresh he
  have halone : alone = outcome e a.check bindings :=
    funext fun file => runPage_eq_outcome hstore a.check bindings file
  rw [halone]
  refine ⟨fun order horder => ⟨?_, fun results after hresults hprocessed => ?_⟩, fun tree => ?_⟩
  · obtain ⟨results, after, hprocessed, hresults⟩ :=
      exists_processed e Functions.builtin a.check bindings order {}
    exact ⟨results, after, hresults, hprocessed⟩
  · have hfiles : results.map Prod.fst ⊆ files := by
      rw [hresults]
      exact horder.subset
    rw [← hresults]
    exact hprocessed.outcomes hevaluator htold (e.faithful_empty files) hfiles
  · have hshown := emit_run settings.templateRoots a.outDir
      (files.map fun file => (file, outcome e a.check bindings file)) tree
    simp only [List.filter_map, List.map_map, Function.comp_def, List.map_id'] at hshown
    refine ⟨?_, hshown⟩
    obtain ⟨broken, herrors, hrun⟩ := pages_run_alone hstore htold settings a bindings tree
    refine ⟨broken, herrors, ?_⟩
    have hbroken : broken.length = if a.check then e.brokenComponents.1.length else 0 := by
      rw [← List.length_map (f := Failure.error), herrors]
      split <;> simp
    rw [hrun, List.length_append, length_failures, hbroken, List.countP_map]
    rfl

/-! ### One page under two paths -/

/-- A workspace with one page. -/
def homeTree : Tree := ⟨[(["w", "home.view.html"], "<p></p>".toUTF8)], [["w"]], ["w"]⟩

/-- The settings of a workspace without a settings file. -/
def homeSettings : Settings := ⟨⟨"/w"⟩, none, [⟨"/w"⟩], [⟨"/w"⟩], [], [], {}⟩

/-- What is found for some paths in the workspace. -/
def homeFound (files : List Path) : List (Path × Except ViewError Loaded) :=
  ((gather Tree.disk homeSettings.templateRoots files).run homeTree).1

/-- The engine of the workspace, for some pages. -/
def homeEngine (files : List Path) : Engine :=
  { loader := .gathered (homeFound files), processors := [Processor.shared []] }

/-- A page, and a path without one that comes before it. -/
theorem pages_apart_missing :
    let files : List Path := [⟨"home"⟩, ⟨"about"⟩]
    engine homeSettings (homeFound files) [] = .ok (homeEngine files) ∧
      (homeEngine files).ToldApart files ∧
      ∃ after, Processed (homeEngine files) Functions.builtin true [] {}
        [(⟨"about"⟩, .failed ⟨⟨"about"⟩, none, .notFound ⟨"about"⟩⟩), (⟨"home"⟩, .checked)] after := by
  intro files
  have hengine : engine homeSettings (homeFound files) [] = .ok (homeEngine files) := rfl
  have hdistinct : ∀ p ∈ files, ∀ q ∈ files, p.same q = true → p = q := by decide +kernel
  have htold : (homeEngine files).ToldApart files := by
    intro _ p hp q hq hsame markup hmarkup
    rwa [← hdistinct p hp q hq hsame]
  obtain ⟨⟨results, after, horder, hprocessed⟩, hresults⟩ :=
    (pages_apart hengine { check := true } [] htold).1 files.reverse (List.reverse_perm files)
  refine ⟨hengine, htold, after, ?_⟩
  rw [hresults results after horder hprocessed] at hprocessed
  have halone : files.reverse.map (fun file => (file, (runPage (homeEngine files) true [] file).1)) =
      [(⟨"about"⟩, .failed ⟨⟨"about"⟩, none, .notFound ⟨"about"⟩⟩), (⟨"home"⟩, .checked)] := by
    decide +kernel
  rwa [halone] at hprocessed

/-- A slash at the end makes another path for the loader, and the same one for the store: behind `home`,
    which is there, `home/` is taken from the store, and alone it is not found. -/
theorem pages_not_apart_slash :
    let files : List Path := [⟨"home"⟩, ⟨"home/"⟩]
    engine homeSettings (homeFound files) [] = .ok (homeEngine files) ∧
      (runPages (homeEngine files) true [] files).1 = [(⟨"home"⟩, .checked), (⟨"home/"⟩, .checked)] ∧
      (runPage (homeEngine files) true [] ⟨"home/"⟩).1 =
        .failed ⟨⟨"home/"⟩, none, .notFound ⟨"home/"⟩⟩ :=
  ⟨rfl, by decide +kernel, by decide +kernel⟩

end Run

end Stencil
