import Stencil.Proofs.Project.Written
/-
  What a run writes stays in its output directory.

  The name of a page is a relative path that ends with a name, so it leads out of a directory only by two dots.
  Those it has from the path of its template, which may go up again behind the root that it is found to lie in.
  A path of which only the name of the file is used has none.
-/

namespace Stencil

/-- A place lies in a directory, or in one of the directories in it. -/
def Place.LiesIn (place dir : Place) : Prop := ∃ names : List String, names ≠ [] ∧ place = dir ++ names

namespace Run

open Stencil.Path Discovery

variable {roots : List Path} {p dir file : Path} {tree : Tree} {place : Place}

/-! ## The way to a page -/

/-- Components that are no names stand in front of the name of a file. -/
theorem mem_inFront_iff {c : Component} {cs : List Component} (hc : ∀ s, c ≠ .name s) :
    c ∈ inFront cs ↔ c ∈ cs := by
  unfold inFront
  split
  · next s hlast =>
    obtain ⟨front, rfl⟩ := List.getLast?_eq_some_iff.1 hlast
    simp [hc s]
  · exact .rfl

/-- The name of a page is relative and ends with a name; it goes up just where the path of its template does, below
    the root, unless that is an absolute path. -/
theorem pageName_relative (p : Path) (roots : List Path) :
    let name := pageName p roots
    name.isAbsolute = false ∧ name.fileName?.isSome = true ∧
      (.up ∈ name.components ↔ .up ∈ below roots p ∧ .root ∉ below roots p) := by
  obtain ⟨stem, hname, -⟩ := exists_components_pageName p roots
  have hfile : (pageName p roots).fileName? = some (stem ++ ".html") := by
    rw [fileName?_eq_some_iff, hname, List.getLast?_concat]
  refine ⟨?_, by rw [hfile]; rfl, ?_⟩
  · rw [← Bool.not_eq_true, isAbsolute_iff, hname]
    split
    · simp
    · next hinside => simpa [mem_inFront_iff] using hinside
  · rw [hname]
    split
    · next hroot => simp [hroot]
    · next hinside => simp [mem_inFront_iff, hinside]

/-- The name of a page that is found through the roots of a project goes up only where one of the roots does. -/
theorem exists_root_of_up_mem {s : Settings} (h : tree.Proper) (hp : p ∈ Discovery.pages s tree.filesUnder)
    (hup : .up ∈ (pageName p s.templateRoots).components) :
    ∃ root ∈ s.templateRoots, .up ∈ root.components := by
  obtain ⟨-, -, hiff⟩ := pageName_relative p s.templateRoots
  obtain ⟨root, hroot, hfile, -⟩ := exists_root_of_mem_pages hp
  obtain ⟨names, hnames⟩ := Tree.components_of_mem_filesUnder h hfile
  have hmem : .up ∈ p.components := List.mem_of_mem_drop (hiff.1 hup).1
  rw [hnames, List.mem_append] at hmem
  rcases hmem with hmem | hmem
  · exact ⟨root, hroot, hmem⟩
  · simp at hmem

/-- Where its name does not go up, a page lies in the output directory. -/
theorem liesIn_follow_outFile (hup : .up ∉ (pageName p roots).components) (dir : Path) (place : Place) :
    (place.follow (outFile roots dir p).components).LiesIn (place.follow dir.components) := by
  obtain ⟨hrelative, -, -⟩ := pageName_relative p roots
  have hroot : .root ∉ (pageName p roots).components := by
    rw [← isAbsolute_iff, hrelative]
    exact Bool.false_ne_true
  obtain ⟨stem, hname, -⟩ := exists_components_pageName p roots
  rw [hname, List.mem_append, not_or] at hroot hup
  obtain ⟨names, hnames⟩ := Place.exists_names_of_follow hroot.1 hup.1
  refine ⟨names ++ [stem ++ ".html"], by simp, ?_⟩
  rw [outFile, Place.follow_join hrelative, hname, Place.follow_append, hnames, ← List.append_assoc]
  exact Place.follow_names _ [_]

/-! ## What is written -/

/-- What is told of as written is the file of a page that was rendered. -/
theorem exists_of_mem_emit_run {results : List (Path × PageResult)} {event : Event}
    (h : event ∈ ((emit Tree.disk roots (some dir) results).run tree).1.1) :
    ∃ file html, (file, .rendered html) ∈ results ∧ event = .written file (outFile roots dir file) := by
  induction results generalizing tree with
  | nil => cases h
  | cons result results ih =>
    have hbehind : ∀ {tree' : Tree}, event ∈ ((emit Tree.disk roots (some dir) results).run tree').1.1 →
        ∃ file html, (file, .rendered html) ∈ result :: results ∧
          event = .written file (outFile roots dir file) := by
      intro tree' hmem
      obtain ⟨file, html, hrendered, hevent⟩ := ih hmem
      exact ⟨file, html, List.mem_cons_of_mem _ hrendered, hevent⟩
    rcases emit_run_cases roots dir result results tree with
      hran | ⟨html, hrendered, ⟨err, -, hran⟩ | ⟨written, hwrite, hran⟩⟩
    · rw [hran] at h
      exact hbehind h
    · rw [hran] at h
      cases h
    · rw [hran] at h
      rcases List.mem_cons.1 h with rfl | h
      · exact ⟨result.1, html, by simp [← hrendered], (write_run_ok hwrite).1⟩
      · exact hbehind h

/-- The name of a page is a relative path with the name of a file, and goes up just where the path of the template
    does below its root, unless that is an absolute path.  A run whose pages' names do not go up writes in its
    output directory, and changes no file elsewhere. -/
theorem pages_inside (roots : List Path) (dir : Path) :
    (∀ p, let name := pageName p roots
      name.isAbsolute = false ∧ name.fileName?.isSome = true ∧
        (.up ∈ name.components ↔ .up ∈ below roots p ∧ .root ∉ below roots p)) ∧
    ∀ (results : List (Path × PageResult)) (tree : Tree),
      (∀ result ∈ results, .up ∈ below roots result.1 → .root ∈ below roots result.1) →
      let emitted := (emit Tree.disk roots (some dir) results).run tree
      let outDir := tree.current.follow dir.components
      (∀ file out, .written file out ∈ emitted.1.1 → (tree.current.follow out.components).LiesIn outDir) ∧
        ∀ place, emitted.2.bytesAt? place ≠ tree.bytesAt? place → place.LiesIn outDir := by
  refine ⟨fun p => pageName_relative p roots, fun results tree hinside => ?_⟩
  have hfile : ∀ {file html}, (file, PageResult.rendered html) ∈ results →
      (tree.current.follow (outFile roots dir file).components).LiesIn
        (tree.current.follow dir.components) := by
    intro file html hrendered
    obtain ⟨-, -, hup⟩ := pageName_relative file roots
    refine liesIn_follow_outFile ?_ dir tree.current
    rw [hup]
    exact fun hleads => hleads.2 (hinside (file, .rendered html) hrendered hleads.1)
  dsimp only
  refine ⟨fun file out hwritten => ?_, fun place hchanged => ?_⟩
  · obtain ⟨_, html, hrendered, hevent⟩ := exists_of_mem_emit_run hwritten
    obtain ⟨rfl, rfl⟩ := Event.written.inj hevent
    exact hfile hrendered
  · obtain ⟨file, html, hrendered, hplace⟩ := exists_of_emit_run hchanged
    rw [hplace]
    exact hfile hrendered

/-- Templates below a root, and templates elsewhere that are given by absolute paths, are written in the output
    directory. -/
theorem pages_inside_blog :
    let results : List (Path × PageResult) :=
      [(⟨"/w/blog/post.view.html"⟩, .rendered "<p></p>"),
        (⟨"/elsewhere/../about.view.html"⟩, .rendered "<p></p>")]
    let emitted := (emit Tree.disk [⟨"/w"⟩, ⟨""⟩] (some ⟨"/w/out"⟩) results).run blogTree
    emitted.1.2 = none ∧
      ∀ place, emitted.2.bytesAt? place ≠ blogTree.bytesAt? place → place.LiesIn ["w", "out"] := by
  intro results emitted
  have hinside : ∀ result ∈ results, .up ∈ below [⟨"/w"⟩, ⟨""⟩] result.1 →
      .root ∈ below [⟨"/w"⟩, ⟨""⟩] result.1 := by
    decide +kernel
  exact ⟨by decide +kernel, ((pages_inside [⟨"/w"⟩, ⟨""⟩] ⟨"/w/out"⟩).2 results blogTree hinside).2⟩

/-- A template that is given by a path through a root and up again is written beside the output directory. -/
theorem page_outside_root :
    let emitted := (emit Tree.disk [⟨"/w/blog"⟩] (some ⟨"/w/out"⟩)
      [(⟨"/w/blog/../home.view.html"⟩, .rendered "<p></p>")]).run blogTree
    pageName ⟨"/w/blog/../home.view.html"⟩ [⟨"/w/blog"⟩] = ⟨"../home.html"⟩ ∧
      emitted.1 = ([.written ⟨"/w/blog/../home.view.html"⟩ ⟨"/w/out/../home.html"⟩], none) ∧
      blogTree.read? ⟨"/w/home.html"⟩ = none ∧ emitted.2.read? ⟨"/w/home.html"⟩ = some "<p></p>" ∧
      emitted.2.read? ⟨"/w/out/home.html"⟩ = none := by
  intro emitted
  exact ⟨by decide +kernel, by decide +kernel, by decide +kernel, by decide +kernel, by decide +kernel⟩

end Run

end Stencil
