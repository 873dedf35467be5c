import Stencil.Proofs.Files.Places
import Stencil.Proofs.Project.PageNames
import Stencil.Proofs.Project.Reading
/-
  What a run leaves in its output directory.

  Writing a page creates directories and one file, and leaves the files at other places as they are.  So where no two
  pages have the same name they are written to different places, and each of them is still there at the end of
  the run.
-/

namespace Stencil

namespace Run

open Stencil.Path Discovery

variable {tree : Tree} {s : Settings} {p q : Path}

/-! ## Writing pages -/

/-- Writing a page makes the tree grow. -/
theorem grows_write_run (roots : List Path) (dir file : Path) (html : String) (tree : Tree) :
    tree.Grows ((write Tree.disk roots dir file html).run tree).2 := by
  rw [write_run]
  have hcreated := tree.grows_createDirectories ((outFile roots dir file).parent?.getD ⟨""⟩)
  dsimp only
  split
  · dsimp only
    exact hcreated.trans (Tree.grows_write _ (outFile roots dir file) html)
  · dsimp only
    exact hcreated

/-- A page that is told of as written is where it was written to. -/
theorem write_run_ok {roots : List Path} {dir file : Path} {html : String} {tree : Tree} {event : Event}
    (h : ((write Tree.disk roots dir file html).run tree).1 = .ok event) :
    event = .written file (outFile roots dir file) ∧
      ((write Tree.disk roots dir file html).run tree).2.Holds (outFile roots dir file) html := by
  revert h
  rw [write_run]
  dsimp only
  split
  · dsimp only
    split
    · next hwritten =>
      intro h
      exact ⟨(Except.ok.inj h).symm, Tree.holds_write hwritten⟩
    · exact nofun
  · exact nofun

/-- Writing a page changes no file but that of the page. -/
theorem eq_follow_of_write_run {roots : List Path} {dir file : Path} {html : String} {tree : Tree}
    {place : Place}
    (h : ((write Tree.disk roots dir file html).run tree).2.bytesAt? place ≠ tree.bytesAt? place) :
    place = tree.current.follow (outFile roots dir file).components := by
  have hgrows := tree.grows_createDirectories ((outFile roots dir file).parent?.getD ⟨""⟩)
  rw [← tree.bytesAt?_createDirectories ((outFile roots dir file).parent?.getD ⟨""⟩), write_run] at h
  dsimp only at h
  split at h
  · dsimp only at h
    rw [← hgrows.current]
    exact Tree.eq_follow_of_write h
  · dsimp only at h
    exact (h rfl).elim

theorem grows_emit_run (roots : List Path) (dir : Path) (results : List (Path × PageResult)) (tree : Tree) :
    tree.Grows ((emit Tree.disk roots (some dir) results).run tree).2 := by
  induction results generalizing tree with
  | nil => exact .refl tree
  | cons result results ih =>
    rcases emit_run_cases roots dir result results tree with hran | ⟨html, -, hwritten⟩
    · rw [hran]
      exact ih tree
    · have hgrows := grows_write_run roots dir result.1 html tree
      rcases hwritten with ⟨err, -, hran⟩ | ⟨event, -, hran⟩
      · rw [hran]
        dsimp only
        exact hgrows
      · rw [hran]
        dsimp only
        exact hgrows.trans (ih _)

/-- Writing pages changes no files but those of the pages. -/
theorem exists_of_emit_run {roots : List Path} {dir : Path} {results : List (Path × PageResult)} {tree : Tree}
    {place : Place}
    (h : ((emit Tree.disk roots (some dir) results).run tree).2.bytesAt? place ≠ tree.bytesAt? place) :
    ∃ file html, (file, .rendered html) ∈ results ∧
      place = tree.current.follow (outFile roots dir file).components := by
  induction results generalizing tree with
  | nil => exact (h rfl).elim
  | cons result results ih =>
    have hbehind : ∀ {tree' : Tree}, tree'.current = tree.current →
        ((emit Tree.disk roots (some dir) results).run tree').2.bytesAt? place ≠ tree'.bytesAt? place →
        ∃ file html, (file, .rendered html) ∈ result :: results ∧
          place = tree.current.follow (outFile roots dir file).components := by
      intro tree' hcurrent hchanged
      obtain ⟨file, html, hrendered, hplace⟩ := ih hchanged
      exact ⟨file, html, List.mem_cons_of_mem _ hrendered, by rw [← hcurrent, hplace]⟩
    rcases emit_run_cases roots dir result results tree with hran | ⟨html, hrendered, hwritten⟩
    · rw [hran] at h
      exact hbehind rfl h
    · by_cases hfirst : ((write Tree.disk roots dir result.1 html).run tree).2.bytesAt? place =
          tree.bytesAt? place
      · -- the place is as it was when the pages behind are written
        rw [← hfirst] at h
        rcases hwritten with ⟨err, -, hran⟩ | ⟨event, -, hran⟩
        · rw [hran] at h
          dsimp only at h
          exact (h rfl).elim
        · rw [hran] at h
          dsimp only at h
          exact hbehind (grows_write_run roots dir result.1 html tree).current h
      · exact ⟨result.1, html, by simp [← hrendered], eq_follow_of_write_run hfirst⟩

/-- Pages that are written elsewhere leave a file as it is. -/
theorem emit_run_holds (roots : List Path) (dir : Path) (results : List (Path × PageResult)) {tree : Tree}
    {out : Path} {text : String} (h : tree.Holds out text)
    (hother : ∀ file ∈ results.map Prod.fst,
      tree.current.follow out.components ≠ tree.current.follow (outFile roots dir file).components) :
    ((emit Tree.disk roots (some dir) results).run tree).2.Holds out text := by
  refine h.of_grows (grows_emit_run roots dir results tree) ?_
  by_contra hchanged
  obtain ⟨file, html, hrendered, hplace⟩ := exists_of_emit_run hchanged
  exact hother file (List.mem_map_of_mem hrendered) hplace

/-- Pages that are all written to different places are all there in the end. -/
theorem emit_run_kept (roots : List Path) (dir : Path) (results : List (Path × PageResult)) (tree : Tree)
    (hapart : (results.map Prod.fst).Pairwise fun p q =>
      tree.current.follow (outFile roots dir p).components ≠
        tree.current.follow (outFile roots dir q).components) :
    let ran := (emit Tree.disk roots (some dir) results).run tree
    ∀ event ∈ ran.1.1, ∃ file html, event = .written file (outFile roots dir file) ∧
      (file, .rendered html) ∈ results ∧ ran.2.Holds (outFile roots dir file) html := by
  induction results generalizing tree with
  | nil => exact nofun
  | cons result results ih =>
    obtain ⟨first, outcome⟩ := result
    obtain ⟨hfirst, hapart⟩ := List.pairwise_cons.1 hapart
    intro ran event hevent
    -- what is told of the pages behind the first
    have hbehind : ∀ {tree' : Tree}, tree'.current = tree.current →
        event ∈ ((emit Tree.disk roots (some dir) results).run tree').1.1 →
        ∃ file html, event = .written file (outFile roots dir file) ∧
          (file, .rendered html) ∈ (first, outcome) :: results ∧
          ((emit Tree.disk roots (some dir) results).run tree').2.Holds (outFile roots dir file) html := by
      intro tree' hcurrent hmem
      obtain ⟨file, html, hwritten, hrendered, hholds⟩ := ih tree' (by rwa [hcurrent]) event hmem
      exact ⟨file, html, hwritten, List.mem_cons_of_mem _ hrendered, hholds⟩
    cases outcome with
    | checked => exact hbehind rfl hevent
    | failed failure => exact hbehind rfl hevent
    | rendered html =>
      have hcurrent := (grows_write_run roots dir first html tree).current
      revert hevent
      dsimp only [ran]
      rw [emit_run_cons]
      dsimp only
      cases hwrite : ((write Tree.disk roots dir first html).run tree).1 with
      | error err => exact nofun
      | ok written =>
        obtain ⟨hwritten, hholds⟩ := write_run_ok hwrite
        intro hevent
        rcases List.mem_cons.1 hevent with rfl | hevent
        · refine ⟨first, html, hwritten, List.mem_cons_self, emit_run_holds roots dir results hholds ?_⟩
          rwa [hcurrent]
        · exact hbehind hcurrent hevent

/-- Without an output directory, every page that was rendered is shown. -/
theorem mem_emit_run_none (roots : List Path) {results : List (Path × PageResult)} {file : Path}
    {html : String} (tree : Tree) :
    .rendered file html ∈ ((emit Tree.disk roots none results).run tree).1.1 ↔
      (file, .rendered html) ∈ results := by
  induction results with
  | nil => exact ⟨nofun, nofun⟩
  | cons result results ih =>
    obtain ⟨shown, outcome⟩ := result
    cases outcome with
    | checked => exact ih.trans (by simp)
    | failed failure => exact ih.trans (by simp)
    | rendered text =>
      show .rendered file html ∈ .rendered shown text :: ((emit Tree.disk roots none results).run tree).1.1 ↔ _
      rw [List.mem_cons, List.mem_cons, ih]
      simp

theorem page?_of_mem_closing {a : Arguments} {files : Nat} {failures : List Failure} {event : Event}
    (h : event ∈ closing a files failures) : event.page? = none := by
  unfold closing at h
  rcases List.mem_append.1 h with h | h
  · rcases List.mem_append.1 h with h | h
    · obtain ⟨failure, -, rfl⟩ := List.mem_map.1 h
      rfl
    · split at h <;> simp_all [Event.page?]
  · split at h <;> simp_all [Event.page?]

theorem map_fst_runPages (e : Engine) (checkOnly : Bool) (bindings : Bindings) (files : List Path) :
    (runPages e checkOnly bindings files).1.map Prod.fst = files := by
  induction files generalizing e with
  | nil => rfl
  | cons file files ih => exact congrArg _ (ih _)

/-- The pages that a run tells of are those that are shown or written. -/
theorem pages_run_mem (s : Settings) (a : Arguments) (e : Engine) (bindings : Bindings)
    (files : List Path) (tree : Tree) :
    let ran := (pages Tree.disk s a e bindings files).run tree
    let emitted := (emit Tree.disk s.templateRoots a.outDir (runPages e a.check bindings files).1).run tree
    ran.2 = emitted.2 ∧
      (∀ event file, event.page? = some file → (event ∈ ran.1.1 ↔ event ∈ emitted.1.1)) ∧
      ∀ tally, ran.1.2 = .ok tally → emitted.1.2 = none := by
  obtain ⟨broken, -, hrun⟩ := pages_run s a e bindings files tree
  intro ran emitted
  dsimp only [ran]
  rw [hrun]
  dsimp only
  cases hended : emitted.1.2 with
  | some err =>
    have hemitted : emitted.1 = (emitted.1.1, some err) := Prod.ext rfl hended
    rw [hemitted]
    exact ⟨rfl, fun _ _ _ => .rfl, nofun⟩
  | none =>
    have hemitted : emitted.1 = (emitted.1.1, none) := Prod.ext rfl hended
    rw [hemitted]
    refine ⟨rfl, fun event file hpage => ?_, fun _ _ => rfl⟩
    dsimp only
    rw [List.mem_append, or_iff_left]
    intro hclosing
    rw [page?_of_mem_closing hclosing] at hpage
    cases hpage

/-- Pages with different names are written to different places. -/
theorem follow_outFile_ne (h : Laid tree s) (hapart : Apart tree s)
    (hup : ∀ p ∈ Discovery.pages s tree.filesUnder, .up ∉ below s.templateRoots p) (place : Place)
    (dir : Path) (hp : p ∈ Discovery.pages s tree.filesUnder) (hq : q ∈ Discovery.pages s tree.filesUnder)
    (hne : p ≠ q) :
    place.follow (outFile s.templateRoots dir p).components ≠
      place.follow (outFile s.templateRoots dir q).components := by
  intro hfollow
  exact hne ((apart_iff h).1 hapart p hp q hq (same_of_follow_eq h hp hq (hup p hp) (hup q hq) hfollow))

/-- Of the pages of a project, each that is written is there in the end. -/
theorem emit_pages_kept (h : Laid tree s) (hapart : Apart tree s)
    (hup : ∀ p ∈ Discovery.pages s tree.filesUnder, .up ∉ below s.templateRoots p) (dir : Path)
    {results : List (Path × PageResult)}
    (hresults : results.map Prod.fst = Discovery.pages s tree.filesUnder) :
    let emitted := (emit Tree.disk s.templateRoots (some dir) results).run tree
    ∀ event ∈ emitted.1.1, ∃ file html, event = .written file (outFile s.templateRoots dir file) ∧
      (file, .rendered html) ∈ results ∧ emitted.2.Holds (outFile s.templateRoots dir file) html := by
  refine emit_run_kept s.templateRoots dir results tree ?_
  rw [hresults]
  refine (pairwise_pages s tree.filesUnder).imp_of_mem fun hp hq hbefore => ?_
  refine follow_outFile_ne h hapart hup tree.current dir hp hq ?_
  rintro rfl
  have hsame := hbefore.2
  rw [same_iff.2 rfl] at hsame
  cases hsame

/-- Of the pages of a project, what is shown is what is left in files of their own. -/
theorem pages_run_kept (h : Laid tree s) (hapart : Apart tree s)
    (hup : ∀ p ∈ Discovery.pages s tree.filesUnder, .up ∉ below s.templateRoots p)
    (a : Arguments) (e : Engine) (bindings : Bindings) (dir : Path) :
    let files := Discovery.pages s tree.filesUnder
    let shown := (pages Tree.disk s { a with outDir := none } e bindings files).run tree
    let written := (pages Tree.disk s { a with outDir := some dir } e bindings files).run tree
    (∀ p out, .written p out ∈ written.1.1 →
      ∃ html, .rendered p html ∈ shown.1.1 ∧ written.2.read? out = some html) ∧
    (∀ p q out out', .written p out ∈ written.1.1 → .written q out' ∈ written.1.1 →
      written.2.locate out = written.2.locate out' → p = q) ∧
    ∀ tally, written.1.2 = .ok tally → ∀ p html, .rendered p html ∈ shown.1.1 →
      ∃ out, .written p out ∈ written.1.1 := by
  intro files shown written
  let results := (runPages e a.check bindings files).1
  let emitted := (emit Tree.disk s.templateRoots (some dir) results).run tree
  have hresults : results.map Prod.fst = files := map_fst_runPages e a.check bindings files
  obtain ⟨-, hshown, -⟩ := pages_run_mem s { a with outDir := none } e bindings files tree
  obtain ⟨hleft, hwritten, hended⟩ := pages_run_mem s { a with outDir := some dir } e bindings files tree
  have hkept := emit_pages_kept h hapart hup dir hresults
  -- what is told of a page as written
  have hpage : ∀ {p out : Path}, .written p out ∈ written.1.1 → out = outFile s.templateRoots dir p ∧
      ∃ html, (p, .rendered html) ∈ results ∧ written.2.Holds out html := by
    intro p out hp
    obtain ⟨file, html, hevent, hrendered, hholds⟩ := hkept _ ((hwritten _ p rfl).1 hp)
    cases hevent
    exact ⟨rfl, html, hrendered, by rwa [hleft]⟩
  have hmem : ∀ {p : Path} {html : String}, (p, PageResult.rendered html) ∈ results → p ∈ files := by
    intro p html hp
    rw [← hresults]
    exact List.mem_map_of_mem hp
  refine ⟨fun p out hp => ?_, fun p q out out' hp hq hlocate => ?_, fun tally htally p html hp => ?_⟩
  · obtain ⟨-, html, hrendered, hholds⟩ := hpage hp
    exact ⟨html, (hshown _ p rfl).2 ((mem_emit_run_none s.templateRoots tree).2 hrendered), hholds.read?⟩
  · obtain ⟨rfl, _, hprendered, place, hplace, -⟩ := hpage hp
    obtain ⟨rfl, _, hqrendered, place', hplace', -⟩ := hpage hq
    by_contra hne
    refine follow_outFile_ne h hapart hup written.2.current dir (hmem hprendered) (hmem hqrendered) hne ?_
    rw [← Tree.locate_eq hplace, ← Tree.locate_eq hplace']
    rw [hplace, hplace'] at hlocate
    exact Option.some.inj hlocate
  · obtain ⟨-, hall, -⟩ := emit_run s.templateRoots (some dir) results tree
    have hrendered := (mem_emit_run_none s.templateRoots tree).1 ((hshown _ p rfl).1 hp)
    have hpages : p ∈ emitted.1.1.filterMap Event.page? := by
      rw [hall (hended tally htally)]
      exact List.mem_map_of_mem (List.mem_filter.2 ⟨hrendered, rfl⟩)
    obtain ⟨event, hevent, hpage⟩ := List.mem_filterMap.1 hpages
    obtain ⟨file, -, rfl, -⟩ := hkept event hevent
    obtain rfl : file = p := Option.some.inj hpage
    exact ⟨_, (hwritten _ file rfl).2 hevent⟩

/-- The pages of a project have different names just when no two roots hold pages under the same path.  Then
    nothing that is written is lost: what a run shows of a page, a run with an output directory leaves in a file of
    its own. -/
theorem pages_kept {tree : Tree} {workspace : Path} {a : Arguments} {s : Settings}
    (hs : ((Settings.load Tree.disk workspace a).run tree).1 = .ok s) (h : Laid tree s) :
    let files := Discovery.pages s tree.filesUnder
    (Apart tree s ↔ ∀ p ∈ files, ∀ q ∈ files,
      (pageName p s.templateRoots).same (pageName q s.templateRoots) = true → p = q) ∧
    (Apart tree s → (∀ p ∈ files, .up ∉ below s.templateRoots p) → a.templates = [] → ∀ dir : Path,
      let shown := (run Tree.disk workspace { a with outDir := none }).run tree
      let written := (run Tree.disk workspace { a with outDir := some dir }).run tree
      (∀ p out, .written p out ∈ written.1.1 →
        ∃ html, .rendered p html ∈ shown.1.1 ∧ written.2.read? out = some html) ∧
      (∀ p q out out', .written p out ∈ written.1.1 → .written q out' ∈ written.1.1 →
        written.2.locate out = written.2.locate out' → p = q) ∧
      ∀ tally, written.1.2 = .ok tally → ∀ p html, .rendered p html ∈ shown.1.1 →
        ∃ out, .written p out ∈ written.1.1) := by
  refine ⟨apart_iff h, fun hapart hup ha dir => ?_⟩
  dsimp only
  rcases run_cases hs ha with ⟨e, bindings, hrun⟩ | ⟨err, hrun⟩
  · rw [hrun none, hrun (some dir)]
    exact pages_run_kept h hapart hup a e bindings dir
  · rw [hrun none, hrun (some dir)]
    exact ⟨nofun, nofun, nofun⟩

/-! ### One root and two -/

/-- A workspace with two pages. -/
def blogTree : Tree :=
  ⟨[(["w", "blog", "post.view.html"], "<p></p>".toUTF8), (["w", "home.view.html"], "<p></p>".toUTF8)],
    [["w"], ["w", "blog"]], ["w"]⟩

/-- The settings of a workspace, and none but the workspace itself where they cannot be loaded. -/
def settingsIn (tree : Tree) (workspace : Path) (a : Arguments) : Settings :=
  match ((Settings.load Tree.disk workspace a).run tree).1 with
  | .ok s => s
  | .error _ => ⟨workspace, none, [], [], [], [], {}⟩

/-- Pages of one root are written to different files. -/
theorem pages_kept_blog :
    let s := settingsIn blogTree ⟨"/w"⟩ {}
    let written := (run Tree.disk ⟨"/w"⟩ { outDir := some ⟨"/w/out"⟩ }).run blogTree
    ((Settings.load Tree.disk ⟨"/w"⟩ {}).run blogTree).1 = .ok s ∧ Laid blogTree s ∧ Apart blogTree s ∧
      Discovery.pages s blogTree.filesUnder = [⟨"/w/blog/post.view.html"⟩, ⟨"/w/home.view.html"⟩] ∧
      ∀ p q out out', .written p out ∈ written.1.1 → .written q out' ∈ written.1.1 →
        written.2.locate out = written.2.locate out' → p = q := by
  intro s written
  have hs : ((Settings.load Tree.disk ⟨"/w"⟩ {}).run blogTree).1 = .ok s := by
    dsimp only [s, settingsIn]
    have hloaded : ((Settings.load Tree.disk ⟨"/w"⟩ {}).run blogTree).1.toOption.isSome = true := by
      decide +kernel
    cases hload : ((Settings.load Tree.disk ⟨"/w"⟩ {}).run blogTree).1 with
    | error err =>
      rw [hload] at hloaded
      cases hloaded
    | ok s => rfl
  have hpages : Discovery.pages s blogTree.filesUnder =
      [⟨"/w/blog/post.view.html"⟩, ⟨"/w/home.view.html"⟩] := by
    rw [Discovery.pages, sorted_of_pairwise (by decide +kernel)]
    decide +kernel
  have hfiles : ∀ root ∈ s.templateRoots, ∀ p ∈ Discovery.pages s blogTree.filesUnder,
      p.same root = false := by
    rw [hpages]
    decide +kernel
  have h : Laid blogTree s := ⟨by decide +kernel, by decide +kernel, hfiles⟩
  have hapart : Apart blogTree s := apart_of_root h (show s.templateRoots = [⟨"/w"⟩] by decide +kernel)
  have hup : ∀ p ∈ Discovery.pages s blogTree.filesUnder, .up ∉ below s.templateRoots p := by
    rw [hpages]
    decide +kernel
  exact ⟨hs, h, hapart, hpages, ((pages_kept hs h).2 hapart hup rfl ⟨"/w/out"⟩).2.1⟩

/-- A workspace with two directories and a page of the same name in each. -/
def sidesTree : Tree :=
  ⟨[(["w", "a", "home.view.html"], "<p>A</p>".toUTF8), (["w", "b", "home.view.html"], "<p>B</p>".toUTF8)],
    [["w"], ["w", "a"], ["w", "b"]], ["w"]⟩

/-- Pages under the same path below two roots are written to the same file, one over the other: both are told of
    as written, and only the later one is left. -/
theorem pages_lost_sides :
    let s := settingsIn sidesTree ⟨"/w"⟩ { templateRoots := [⟨"a"⟩, ⟨"b"⟩] }
    let written := (emit Tree.disk s.templateRoots (some ⟨"/w/out"⟩)
      [(⟨"/w/a/home.view.html"⟩, .rendered "<p>A</p>"), (⟨"/w/b/home.view.html"⟩, .rendered "<p>B</p>")]).run
        sidesTree
    Discovery.pages s sidesTree.filesUnder = [⟨"/w/a/home.view.html"⟩, ⟨"/w/b/home.view.html"⟩] ∧
      pageName ⟨"/w/a/home.view.html"⟩ s.templateRoots = ⟨"home.html"⟩ ∧
      pageName ⟨"/w/b/home.view.html"⟩ s.templateRoots = ⟨"home.html"⟩ ∧
      written.1 = ([.written ⟨"/w/a/home.view.html"⟩ ⟨"/w/out/home.html"⟩,
        .written ⟨"/w/b/home.view.html"⟩ ⟨"/w/out/home.html"⟩], none) ∧
      written.2.read? ⟨"/w/out/home.html"⟩ = some "<p>B</p>" := by
  intro s written
  refine ⟨?_, by decide +kernel, by decide +kernel, by decide +kernel, by decide +kernel⟩
  rw [Discovery.pages, sorted_of_pairwise (by decide +kernel)]
  decide +kernel

end Run

end Stencil
