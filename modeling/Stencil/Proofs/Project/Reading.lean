import Mathlib.Data.List.Basic
import Stencil.Proofs.Project.Reports
/-
  What a run reads before its pages.

  Up to its pages a run only asks for files, so in memory it leaves the tree as it is: the settings, the list of
  pages and everything that is found for them are taken from one and the same tree.  What comes after that is
  a run of pages, unless something that is asked for is missing.
-/

namespace Stencil

namespace Tree

variable {α β : Type} {t : Tree}

/-- Something is done that leaves a tree as it is. -/
def Leaves (x : StateM Tree α) (t : Tree) : Prop := (x.run t).2 = t

theorem leaves_pure (a : α) (t : Tree) : Leaves (pure a) t := rfl

theorem leaves_read? (t : Tree) (p : Path) : Leaves (disk.read? p) t := rfl

theorem Leaves.bind {x : StateM Tree α} {f : α → StateM Tree β} (hx : Leaves x t)
    (hf : ∀ a, Leaves (f a) t) : Leaves (x >>= f) t := by
  unfold Leaves
  rw [run_bind, hx]
  exact hf _

/-- Behind something that leaves the tree as it is, the rest starts from that tree. -/
theorem Leaves.run_bind {x : StateM Tree α} (hx : Leaves x t) (f : α → StateM Tree β) :
    (x >>= f).run t = (f (x.run t).1).run t := by
  rw [Tree.run_bind, hx]

/-- One thing after the other that leaves the tree as it is, each from that tree. -/
theorem run_mapM {f : α → StateM Tree β} (hf : ∀ a, Leaves (f a) t) (as : List α) :
    (as.mapM f).run t = (as.map fun a => ((f a).run t).1, t) := by
  induction as with
  | nil => rfl
  | cons a as ih =>
    rw [List.mapM_cons, (hf a).run_bind, Tree.run_bind, ih]
    rfl

end Tree

open Stencil.Tree

variable {t : Tree}

theorem Lookup.leaves_load (t : Tree) (roots : List Path) (p : Path) :
    Leaves (load Tree.disk roots p) t := by
  unfold load
  induction candidates roots p with
  | nil => exact leaves_pure _ t
  | cons candidate more ih =>
    refine Leaves.bind (x := Tree.disk.isFile candidate) rfl fun isFile => ?_
    cases isFile with
    | false => exact ih
    | true =>
      refine (leaves_read? t candidate).bind fun text => ?_
      cases text with
      | none => exact leaves_pure _ t
      | some markup => exact leaves_pure _ t

namespace Settings

theorem leaves_firstFile (t : Tree) (ps : List Path) : Leaves (firstFile Tree.disk ps) t := by
  induction ps with
  | nil => exact leaves_pure _ t
  | cons p ps ih =>
    refine Leaves.bind (x := Tree.disk.isFile p) rfl fun isFile => ?_
    cases isFile with
    | false => exact ih
    | true => exact leaves_pure _ t

theorem leaves_load (t : Tree) (workspace : Path) (a : Arguments) :
    Leaves (load Tree.disk workspace a) t := by
  unfold load
  -- what is done once it is known which file says the settings
  extract_lets readFrom
  have hreadFrom : ∀ file, Leaves (readFrom file) t := by
    intro file
    cases file with
    | none => exact leaves_pure _ t
    | some p =>
      refine (leaves_read? t p).bind fun text => ?_
      cases text with
      | none => exact leaves_pure _ t
      | some text =>
        dsimp only
        cases SettingsFile.parse? text with
        | none => exact leaves_pure _ t
        | some f => exact leaves_pure _ t
  cases a.config with
  | some p => exact (leaves_pure _ t).bind hreadFrom
  | none => exact (leaves_firstFile t _).bind hreadFrom

end Settings

namespace Discovery

/-- The files that are listed for some directories are those under them in the tree. -/
theorem listing_run (t : Tree) (dirs : List Path) :
    ∃ filesUnder : Path → List Path, (∀ dir ∈ dirs, filesUnder dir = t.filesUnder dir) ∧
      (listing Tree.disk dirs).run t = (filesUnder, t) := by
  let found := dirs.map fun dir => (dir, t.filesUnder dir)
  refine ⟨fun dir => ((found.find? fun entry => entry.1 = dir).map Prod.snd).getD [], ?_, ?_⟩
  · intro dir hdir
    cases hfound : found.find? fun entry => entry.1 = dir with
    | none =>
      have hnone := List.find?_eq_none.1 hfound (dir, t.filesUnder dir) (List.mem_map_of_mem hdir)
      simp at hnone
    | some entry =>
      obtain ⟨other, -, rfl⟩ := List.mem_map.1 (List.mem_of_find?_eq_some hfound)
      obtain rfl : other = dir := by simpa using List.find?_some hfound
      dsimp only
      rw [hfound]
      rfl
  · have hrun : (dirs.mapM fun dir => return (dir, ← Tree.disk.filesUnder dir) : StateM Tree _).run t =
        (found, t) := run_mapM (fun dir => show Leaves (do return (dir, ← Tree.disk.filesUnder dir)) t from rfl) dirs
    unfold listing
    rw [Tree.run_bind, hrun]
    rfl

/-- Which pages are found depends on the files under the roots alone. -/
theorem pages_congr {s : Settings} {filesUnder filesUnder' : Path → List Path}
    (h : ∀ root ∈ s.templateRoots, filesUnder root = filesUnder' root) :
    pages s filesUnder = pages s filesUnder' :=
  congrArg (sorted id) (List.flatMap_congr fun root hroot => by rw [h root hroot])

/-- Which components are found depends on the files under their directories alone. -/
theorem components_congr {s : Settings} {filesUnder filesUnder' : Path → List Path}
    (h : ∀ dir ∈ s.componentDirs, filesUnder dir = filesUnder' dir) :
    components s filesUnder = components s filesUnder' :=
  congrArg (sorted FoundComponent.path) (List.flatMap_congr fun dir hdir => by rw [h dir hdir])

end Discovery

namespace Run

theorem leaves_gather (t : Tree) (roots paths : List Path) :
    Leaves (gather Tree.disk roots paths) t :=
  congrArg Prod.snd (run_mapM (fun p => (Lookup.leaves_load t roots p).bind fun _ => leaves_pure _ t) paths)

theorem leaves_bindings (t : Tree) (a : Arguments) : Leaves (bindings Tree.disk a) t := by
  unfold bindings
  cases a.data with
  | none => exact leaves_pure _ t
  | some file =>
    refine (leaves_read? t file).bind fun text => ?_
    cases text with
    | none => exact leaves_pure _ t
    | some text =>
      dsimp only
      cases Json.read? text with
      | none => exact leaves_pure _ t
      | some j =>
        dsimp only
        cases SettingsFile.bindings? j with
        | none => exact leaves_pure _ t
        | some bindings => exact leaves_pure _ t

/-- The engine of a run without named templates: that of the components in its tree, with what is found for
    these and for its pages. -/
def engineIn (t : Tree) (s : Settings) : Except ViewError Engine :=
  let components := Discovery.components s t.filesUnder
  let paths := components.map FoundComponent.path ++ Discovery.pages s t.filesUnder
  engine s ((gather Tree.disk s.templateRoots paths).run t).1 components

/-- Without named templates a run is a run of the pages in its tree, unless something that is asked for is
    missing. -/
theorem run_eq {workspace : Path} {a : Arguments} {s : Settings}
    (hs : ((Settings.load Tree.disk workspace a).run t).1 = .ok s) (ha : a.templates = []) :
    (run Tree.disk workspace a).run t =
      match engineIn t s, ((bindings Tree.disk a).run t).1 with
      | .error err, _ => (([], .error (.component err)), t)
      | .ok _, .error err => (([], .error err), t)
      | .ok e, .ok bindings =>
        (pages Tree.disk s a e bindings (Discovery.pages s t.filesUnder)).run t := by
  obtain ⟨componentsUnder, hdirs, hcomponents⟩ := Discovery.listing_run t s.componentDirs
  obtain ⟨pagesUnder, hroots, hpages⟩ := Discovery.listing_run t s.templateRoots
  unfold run engineIn
  rw [(Settings.leaves_load t workspace a).run_bind, hs]
  dsimp only
  rw [Tree.run_bind, hcomponents]
  dsimp only
  rw [if_pos (by simp [ha]), Tree.run_bind, hpages]
  dsimp only
  rw [Tree.run_bind, Tree.run_pure]
  dsimp only
  rw [Discovery.pages_congr hroots, Discovery.components_congr hdirs, (leaves_gather t _ _).run_bind]
  cases engine s _ _ with
  | error err => rfl
  | ok e =>
    dsimp only
    rw [(leaves_bindings t a).run_bind]
    cases ((bindings Tree.disk a).run t).1 with
    | error err => rfl
    | ok bindings => rfl

/-- Wherever its output goes, a run without named templates is a run of the same pages through the same
    engine, or ends before them. -/
theorem run_cases {workspace : Path} {a : Arguments} {s : Settings}
    (hs : ((Settings.load Tree.disk workspace a).run t).1 = .ok s) (ha : a.templates = []) :
    (∃ e bindings, ∀ outDir : Option Path, (run Tree.disk workspace { a with outDir }).run t =
      (pages Tree.disk s { a with outDir } e bindings (Discovery.pages s t.filesUnder)).run t) ∨
    ∃ err, ∀ outDir : Option Path, (run Tree.disk workspace { a with outDir }).run t =
      (([], .error err), t) := by
  have hrun := fun outDir : Option Path =>
    run_eq (a := { a with outDir }) (show ((Settings.load Tree.disk workspace { a with outDir }).run t).1 = _
      from hs) ha
  have hbindings : ∀ outDir : Option Path, bindings Tree.disk { a with outDir } = bindings Tree.disk a :=
    fun _ => rfl
  cases hengine : engineIn t s with
  | error err => exact .inr ⟨.component err, fun outDir => by rw [hrun, hengine]⟩
  | ok e =>
    cases hdata : ((bindings Tree.disk a).run t).1 with
    | error err => exact .inr ⟨err, fun outDir => by rw [hrun, hengine, hbindings, hdata]⟩
    | ok data => exact .inl ⟨e, data, fun outDir => by rw [hrun, hengine, hbindings, hdata]⟩

end Run

end Stencil
