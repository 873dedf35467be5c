import Stencil.Project.Run
/-
  What a run tells of its pages.

  A run in memory is a function of the tree it starts with.  The pages that were rendered are shown in their
  order, up to one that cannot be written; then come the failures, those of components before those of
  pages.
-/

namespace Stencil

namespace Tree

variable {α β : Type}

theorem run_bind (x : StateM Tree α) (f : α → StateM Tree β) (t : Tree) :
    (x >>= f).run t = (f (x.run t).1).run (x.run t).2 := rfl

theorem run_pure (a : α) (t : Tree) : (pure a : StateM Tree α).run t = (a, t) := rfl

theorem run_read? (t : Tree) (p : Path) : (disk.read? p).run t = (t.read? p, t) := rfl

end Tree

/-- The file of the page that an event shows. -/
def Event.page? : Event → Option Path
  | .rendered file _ | .written file _ => some file
  | _ => none

namespace PageResult

def isRendered : PageResult → Bool
  | .rendered _ => true
  | _ => false

def isFailed : PageResult → Bool
  | .failed _ => true
  | _ => false

end PageResult

namespace Run

/-- The failures of components are located in their files, one for each. -/
theorem locateAll_run (e : Engine) (broken : List (String × ViewError)) (tree : Tree) :
    ∃ located : List Failure, located.map Failure.error = broken.map Prod.snd ∧
      (locateAll Tree.disk e broken).run tree = (located, tree) := by
  induction broken with
  | nil => exact ⟨[], rfl, rfl⟩
  | cons entry broken ih =>
    obtain ⟨name, err⟩ := entry
    obtain ⟨located, herrors, hrun⟩ := ih
    let markup := if err.span?.isSome then tree.read? (componentFile e name) else none
    refine ⟨⟨componentFile e name, position? err markup, err⟩ :: located, ?_, ?_⟩
    · rw [List.map_cons, List.map_cons, herrors]
    · rw [locateAll]
      dsimp only [markup]
      split <;> simp only [Tree.run_bind, Tree.run_pure, Tree.run_read?, hrun]

/-- The file that a page is written to. -/
def outFile (roots : List Path) (dir file : Path) : Path := dir.join (pageName file roots)

/-- A page is written when its directory could be created. -/
theorem write_run (roots : List Path) (dir file : Path) (html : String) (tree : Tree) :
    (write Tree.disk roots dir file html).run tree =
      let out := outFile roots dir file
      let created := (Tree.disk.createDirectories (out.parent?.getD ⟨""⟩)).run tree
      let written := (Tree.disk.write out html).run created.2
      if created.1 then
        (if written.1 then .ok (.written file out) else .error (.fileNotWritten out), written.2)
      else (.error (.directoryNotCreated (out.parent?.getD ⟨""⟩)), created.2) := by
  unfold write
  rw [Tree.run_bind]
  dsimp only [outFile]
  split
  · rw [Tree.run_bind]
    split
    · rfl
    · rfl
  · rfl

/-- A page that is written is told of, and one that cannot be written is told of as an error. -/
theorem write_run_cases (roots : List Path) (dir file : Path) (html : String) (tree : Tree) :
    (∃ out, ((write Tree.disk roots dir file html).run tree).1 = .ok (.written file out)) ∨
      ∃ err, ((write Tree.disk roots dir file html).run tree).1 = .error err := by
  rw [write_run]
  dsimp only
  split
  · dsimp only
    split
    · exact .inl ⟨_, rfl⟩
    · exact .inr ⟨_, rfl⟩
  · exact .inr ⟨_, rfl⟩

/-- Behind a page that is written the other pages are, and behind one that cannot be written none. -/
theorem emit_run_cons (roots : List Path) (dir file : Path) (html : String)
    (results : List (Path × PageResult)) (tree : Tree) :
    (emit Tree.disk roots (some dir) ((file, .rendered html) :: results)).run tree =
      let written := (write Tree.disk roots dir file html).run tree
      match written.1 with
      | .error err => (([], some err), written.2)
      | .ok event =>
        let behind := (emit Tree.disk roots (some dir) results).run written.2
        ((event :: behind.1.1, behind.1.2), behind.2) := by
  rw [emit]
  simp only [Tree.run_bind]
  cases ((write Tree.disk roots dir file html).run tree).1 with
  | error err => rfl
  | ok event => rfl

/-- The first of some pages is left out unless it was rendered; it ends the run where it cannot be written, and else
    the others are behind it. -/
theorem emit_run_cases (roots : List Path) (dir : Path) (result : Path × PageResult)
    (results : List (Path × PageResult)) (tree : Tree) :
    let ran := (emit Tree.disk roots (some dir) (result :: results)).run tree
    ran = (emit Tree.disk roots (some dir) results).run tree ∨
      ∃ html, result.2 = .rendered html ∧
        let written := (write Tree.disk roots dir result.1 html).run tree
        let behind := (emit Tree.disk roots (some dir) results).run written.2
        (∃ err, written.1 = .error err ∧ ran = (([], some err), written.2)) ∨
          ∃ event, written.1 = .ok event ∧ ran = ((event :: behind.1.1, behind.1.2), behind.2) := by
  obtain ⟨file, outcome⟩ := result
  cases outcome with
  | checked => exact .inl rfl
  | failed failure => exact .inl rfl
  | rendered html =>
    refine .inr ⟨html, rfl, ?_⟩
    dsimp only
    rw [emit_run_cons]
    dsimp only
    cases ((write Tree.disk roots dir file html).run tree).1 with
    | error err => exact .inl ⟨err, rfl, rfl⟩
    | ok event => exact .inr ⟨event, rfl, rfl⟩

/-- The pages that are shown are those that were rendered, in their order, up to one that cannot be
    written. -/
theorem emit_run (roots : List Path) (outDir : Option Path) (results : List (Path × PageResult))
    (tree : Tree) :
    let shown := ((emit Tree.disk roots outDir results).run tree).1
    let rendered := (results.filter fun result => result.2.isRendered).map Prod.fst
    shown.1.filterMap Event.page? <+: rendered ∧
      (shown.2 = none → shown.1.filterMap Event.page? = rendered) ∧
      (outDir = none → shown.2 = none) := by
  induction results generalizing tree with
  | nil => exact ⟨⟨_, rfl⟩, fun _ => rfl, fun _ => rfl⟩
  | cons result results ih =>
    obtain ⟨file, outcome⟩ := result
    cases outcome with
    | checked => exact ih tree
    | failed failure => exact ih tree
    | rendered html =>
      cases outDir with
      | none =>
        obtain ⟨hfront, hall, hended⟩ := ih tree
        exact ⟨(List.cons_prefix_cons).2 ⟨rfl, hfront⟩, fun h => congrArg _ (hall h), hended⟩
      | some dir =>
        rw [emit_run_cons]
        dsimp only
        rcases write_run_cases roots dir file html tree with ⟨out, hwrite⟩ | ⟨err, hwrite⟩
        · rw [hwrite]
          obtain ⟨hfront, hall, -⟩ := ih ((write Tree.disk roots dir file html).run tree).2
          exact ⟨(List.cons_prefix_cons).2 ⟨rfl, hfront⟩, fun h => congrArg _ (hall h), nofun⟩
        · rw [hwrite]
          exact ⟨⟨_, rfl⟩, nofun, nofun⟩

theorem length_failures (results : List (Path × PageResult)) :
    (failures results).length = results.countP fun result => result.2.isFailed := by
  unfold failures
  rw [List.length_filterMap_eq_countP]
  refine List.countP_congr fun result _ => ?_
  cases result.2 <;> simp [PageResult.isFailed]

/-- A run shows its pages, and if all of them can be shown it tells of the failures and comes to an end. -/
theorem pages_run (settings : Settings) (a : Arguments) (e : Engine) (bindings : Bindings)
    (files : List Path) (tree : Tree) :
    let ran := runPages e a.check bindings files
    let emitted := (emit Tree.disk settings.templateRoots a.outDir ran.1).run tree
    ∃ broken : List Failure,
      broken.map Failure.error = (if a.check then ran.2.brokenComponents.1.map Prod.snd else []) ∧
      (pages Tree.disk settings a e bindings files).run tree =
        (match emitted.1 with
          | (events, some err) => (events, .error err)
          | (events, none) =>
            (events ++ closing a files.length (broken ++ failures ran.1),
              .ok ⟨files.length, (broken ++ failures ran.1).length⟩),
          emitted.2) := by
  dsimp only
  unfold pages
  rcases runPages e a.check bindings files with ⟨results, after⟩
  dsimp only
  -- the engine after the check of components, from which their files are taken
  obtain ⟨found, checked, hchecked⟩ : ∃ found checked,
      (if a.check then after.brokenComponents else ([], after)) = (found, checked) := ⟨_, _, rfl⟩
  obtain ⟨broken, herrors, hlocated⟩ := locateAll_run checked found tree
  refine ⟨broken, ?_, ?_⟩
  · obtain rfl : (if a.check then after.brokenComponents else ([], after)).1 = found :=
      congrArg Prod.fst hchecked
    rw [herrors]
    split <;> rfl
  · rw [hchecked]
    dsimp only
    rw [Tree.run_bind, hlocated, Tree.run_bind]
    rcases (emit Tree.disk settings.templateRoots a.outDir results).run tree with ⟨⟨events, _ | err⟩, left⟩
    · rfl
    · rfl

end Run

end Stencil
