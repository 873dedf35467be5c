import Mathlib.Data.List.Perm.Basic
import Stencil.Proofs.Files.Places
import Stencil.Proofs.Project.Discovered
import Stencil.Proofs.Project.PageNames
/-
  The components that a project finds.

  Which components are listed, in which order and under which names, depends on the set of directories alone: every
  component file in one of them is listed once, by the order of paths.  Whether a component counts as that of a
  vendor is told from the first directory it is found through; so it depends on the order of the directories
  wherever two of them disagree about a file that lies in both.
-/

namespace Stencil

open Stencil.Path

/-- The name of a component and the place of its file, whatever the spelling of the path. -/
def FoundComponent.named (c : FoundComponent) : String × List Component := (c.name, c.path.components)

/-- All that tells one component from another, whatever the spelling of its path. -/
def FoundComponent.told (c : FoundComponent) : String × List Component × Bool :=
  (c.name, c.path.components, c.vendor)

namespace Path

variable {dir p q : Path}

/-- A directory for vendors lies between a directory and a path in it. -/
def VendorBetween (dir p : Path) : Prop := .name "vendor" ∈ p.components.drop dir.components.length

instance (dir p : Path) : Decidable (VendorBetween dir p) := inferInstanceAs (Decidable (_ ∈ _))

theorem vendorBetween_congr (h : p.components = q.components) : VendorBetween dir p ↔ VendorBetween dir q := by
  rw [VendorBetween, VendorBetween, h]

/-- Seen from a directory around it, a path has the directories for vendors that lie between. -/
theorem any_relativeTo?_iff (h : ∃ cs, p.components = dir.components ++ cs) :
    ((p.relativeTo? dir).any fun relative => relative.hasComponent "vendor") = true ↔ VendorBetween dir p := by
  obtain ⟨relative, hrelative⟩ := Option.isSome_iff_exists.1 (isSome_relativeTo?_iff.2 h)
  rw [hrelative, VendorBetween, components_relativeTo? hrelative, List.drop_left, Option.any_some,
    hasComponent, List.any_eq_true]
  constructor
  · rintro ⟨component, hmem, hvendor⟩
    exact eq_of_beq hvendor ▸ hmem
  · exact fun hmem => ⟨_, hmem, beq_self_eq_true _⟩

end Path

namespace Discovery

variable {s : Settings} {tree : Tree} {walk : Path → List Path} {dir p q : Path} {c d : FoundComponent}
  {dirs dirs' : List Path}

/-! ## What is found through a directory -/

/-- The name of the component in a file, if it is a view that is not ignored and named like a component. -/
def nameIn? (s : Settings) (p : Path) : Option String :=
  if isView p && !s.isIgnored p then componentName? s.options.tagMarker p else none

/-- The component files found through directories, one directory after the other. -/
def found (s : Settings) (walk : Path → List Path) (dirs : List Path) : List FoundComponent :=
  dirs.flatMap fun dir => (views s (walk dir)).filterMap (component? s dir)

theorem components_eq_sorted (s : Settings) (walk : Path → List Path) :
    components s walk = sorted FoundComponent.path (found s walk s.componentDirs) := rfl

/-- The name of a component depends on the place of its file alone. -/
theorem componentName?_congr (h : p.components = q.components) (marker : String) :
    componentName? marker p = componentName? marker q := by
  rw [componentName?, componentName?, fileName?_congr h]

theorem componentName?_of_nameIn? {name : String} (h : nameIn? s p = some name) :
    componentName? s.options.tagMarker p = some name := by
  unfold nameIn? at h
  split at h
  · exact h
  · cases h

/-- What is found through a directory is a component file below it, with its name, and is a vendor's when a
    directory for vendors lies between. -/
theorem mem_found (hbelow : ∀ dir, ∀ p ∈ walk dir, ∃ cs, p.components = dir.components ++ cs) :
    c ∈ found s walk dirs ↔ ∃ dir ∈ dirs, c.path ∈ walk dir ∧ nameIn? s c.path = some c.name ∧
      (c.vendor = true ↔ VendorBetween dir c.path) := by
  simp only [found, views, List.mem_flatMap, List.mem_filterMap, List.mem_filter, component?,
    Option.map_eq_some_iff]
  refine exists_congr fun dir => and_congr_right fun _ => ?_
  constructor
  · rintro ⟨p, ⟨hp, hview⟩, name, hname, rfl⟩
    exact ⟨hp, by rw [nameIn?, if_pos hview, hname], any_relativeTo?_iff (hbelow dir p hp)⟩
  · rintro ⟨hp, hname, hvendor⟩
    have hview : (isView c.path && !s.isIgnored c.path) = true := by
      by_contra hview
      rw [nameIn?, if_neg hview] at hname
      cases hname
    refine ⟨c.path, ⟨hp, hview⟩, c.name, componentName?_of_nameIn? hname, ?_⟩
    have hseen := any_relativeTo?_iff (hbelow dir c.path hp)
    obtain ⟨name, path, vendor⟩ := c
    simp only [FoundComponent.mk.injEq, true_and]
    exact Bool.eq_iff_iff.2 (hseen.trans hvendor.symm)

theorem exists_components_of_mem_walk (h : tree.Proper)
    (hwalk : ∀ dir p, p ∈ walk dir ↔ p ∈ tree.filesUnder dir) :
    ∀ dir, ∀ p ∈ walk dir, ∃ cs, p.components = dir.components ++ cs := by
  intro dir p hp
  obtain ⟨names, hnames⟩ := Tree.components_of_mem_filesUnder h ((hwalk dir p).1 hp)
  exact ⟨_, hnames⟩

theorem mem_found_congr (h : ∀ dir, dir ∈ dirs ↔ dir ∈ dirs') :
    c ∈ found s walk dirs ↔ c ∈ found s walk dirs' := by
  simp only [found, List.mem_flatMap, h]

/-! ## Which components are listed -/

/-- Lists that are the same by one thing are the same by all that depends on it. -/
theorem map_eq_of_map_eq {α β γ : Type} {f : α → β} {g : α → γ} {as bs : List α} (h : as.map f = bs.map f)
    (hg : ∀ a ∈ as, ∀ b ∈ bs, f a = f b → g a = g b) : as.map g = bs.map g := by
  induction as generalizing bs with
  | nil => rw [List.map_eq_nil_iff.1 h.symm, List.map_nil]
  | cons a as ih =>
    obtain ⟨b, bs, rfl, hab, hbs⟩ := List.map_eq_cons_iff.1 h.symm
    rw [List.map_cons, List.map_cons, hg a List.mem_cons_self b List.mem_cons_self hab.symm,
      ih hbs.symm fun a ha b hb => hg a (List.mem_cons_of_mem _ ha) b (List.mem_cons_of_mem _ hb)]

/-- The places of the components that are listed depend on which directories there are, and not on their order. -/
theorem map_components_found (h : ∀ dir, dir ∈ dirs ↔ dir ∈ dirs') :
    (sorted FoundComponent.path (found s walk dirs)).map (fun c => c.path.components) =
      (sorted FoundComponent.path (found s walk dirs')).map fun c => c.path.components := by
  refine map_components_sorted fun cs => exists_congr fun c => and_congr_left fun _ => ?_
  exact mem_found_congr h

/-- So do their names. -/
theorem map_named_found (hbelow : ∀ dir, ∀ p ∈ walk dir, ∃ cs, p.components = dir.components ++ cs)
    (h : ∀ dir, dir ∈ dirs ↔ dir ∈ dirs') :
    (sorted FoundComponent.path (found s walk dirs)).map FoundComponent.named =
      (sorted FoundComponent.path (found s walk dirs')).map FoundComponent.named := by
  refine map_eq_of_map_eq (map_components_found h) fun c hc d hd hcd => ?_
  obtain ⟨-, -, -, hcname, -⟩ := (mem_found hbelow).1 (mem_of_mem_sorted hc)
  obtain ⟨-, -, -, hdname, -⟩ := (mem_found hbelow).1 (mem_of_mem_sorted hd)
  have hname : some c.name = some d.name := by
    rw [← componentName?_of_nameIn? hcname, componentName?_congr hcd, componentName?_of_nameIn? hdname]
  exact Prod.ext (Option.some.inj hname) hcd

/-! ## Vendors -/

theorem exists_mem_found (hbelow : ∀ dir, ∀ p ∈ walk dir, ∃ cs, p.components = dir.components ++ cs)
    (hdir : dir ∈ dirs) (hp : p ∈ walk dir) (hname : (nameIn? s p).isSome = true) :
    ∃ c ∈ found s walk dirs, c.path = p := by
  obtain ⟨name, hname⟩ := Option.isSome_iff_exists.1 hname
  refine ⟨⟨name, p, decide (VendorBetween dir p)⟩, (mem_found hbelow).2 ⟨dir, hdir, hp, hname, ?_⟩, rfl⟩
  exact decide_eq_true_iff

/-- A component that is found through the first directory is listed as it is seen from there. -/
theorem vendor_iff_of_first (hbelow : ∀ dir, ∀ p ∈ walk dir, ∃ cs, p.components = dir.components ++ cs)
    (hc : c ∈ sorted FoundComponent.path (found s walk (dir :: dirs))) (hp : p ∈ walk dir)
    (hname : (nameIn? s p).isSome = true) (hcp : c.path.components = p.components) :
    c.vendor = true ↔ VendorBetween dir p := by
  have hfirst := find?_of_mem_sorted hc
  have happend : found s walk (dir :: dirs) = found s walk [dir] ++ found s walk dirs := by
    rw [← List.singleton_append, found, List.flatMap_append]
    rfl
  obtain ⟨d, hd, hdp⟩ := exists_mem_found hbelow (List.mem_singleton_self dir) hp hname
  -- what the search ends with is found through the first directory, for that has a file at the same place
  have hsome : ((found s walk [dir]).find? fun d => c.path.same d.path).isSome = true := by
    rw [List.find?_isSome]
    exact ⟨d, hd, Path.same_iff.2 (by rw [hcp, hdp])⟩
  obtain ⟨e, he⟩ := Option.isSome_iff_exists.1 hsome
  rw [happend, List.find?_append, he, Option.some_or] at hfirst
  obtain rfl : e = c := Option.some.inj hfirst
  obtain ⟨around, haround, -, -, hvendor⟩ := (mem_found hbelow).1 (List.mem_of_find?_eq_some he)
  obtain rfl := List.mem_singleton.1 haround
  rw [hvendor, vendorBetween_congr hcp]

/-- Directories tell the same of every component file that is found through two of them: that it is a vendor's, or
    that it is not. -/
def VendorsAgree (tree : Tree) (s : Settings) (dirs : List Path) : Prop :=
  ∀ dir ∈ dirs, ∀ dir' ∈ dirs, ∀ p ∈ tree.filesUnder dir, ∀ q ∈ tree.filesUnder dir',
    (nameIn? s p).isSome = true → (nameIn? s q).isSome = true → p.same q = true →
      (VendorBetween dir p ↔ VendorBetween dir' q)

instance (tree : Tree) (s : Settings) (dirs : List Path) : Decidable (VendorsAgree tree s dirs) :=
  inferInstanceAs (Decidable (∀ _ ∈ _, ∀ _ ∈ _, ∀ _ ∈ _, ∀ _ ∈ _, _ → _ → _ → _))

/-- Where directories agree about vendors, what is listed does not depend on their order. -/
theorem map_told_found (h : tree.Proper) (hwalk : ∀ dir p, p ∈ walk dir ↔ p ∈ tree.filesUnder dir)
    (hagree : VendorsAgree tree s dirs) (hdirs : ∀ dir, dir ∈ dirs ↔ dir ∈ dirs') :
    (sorted FoundComponent.path (found s walk dirs)).map FoundComponent.told =
      (sorted FoundComponent.path (found s walk dirs')).map FoundComponent.told := by
  have hbelow := exists_components_of_mem_walk h hwalk
  refine map_eq_of_map_eq (map_named_found hbelow hdirs) fun c hc d hd hcd => ?_
  obtain ⟨hname, hcomponents⟩ := Prod.mk.inj hcd
  obtain ⟨dir, hdir, hcfile, hcname, hcvendor⟩ := (mem_found hbelow).1 (mem_of_mem_sorted hc)
  obtain ⟨dir', hdir', hdfile, hdname, hdvendor⟩ := (mem_found hbelow).1 (mem_of_mem_sorted hd)
  have hvendor : c.vendor = d.vendor := by
    rw [Bool.eq_iff_iff, hcvendor, hdvendor]
    exact hagree dir hdir dir' ((hdirs dir').2 hdir') c.path ((hwalk _ _).1 hcfile) d.path ((hwalk _ _).1 hdfile)
      (by simp [hcname]) (by simp [hdname]) (Path.same_iff.2 hcomponents)
  exact Prod.ext hname (Prod.ext hcomponents hvendor)

/-- Where no order of directories changes what is listed, they agree about vendors. -/
theorem vendorsAgree_of_map_told (h : tree.Proper) (hwalk : ∀ dir p, p ∈ walk dir ↔ p ∈ tree.filesUnder dir)
    (hsame : ∀ dirs' : List Path, dirs.Perm dirs' →
      (sorted FoundComponent.path (found s walk dirs')).map FoundComponent.told =
        (sorted FoundComponent.path (found s walk dirs)).map FoundComponent.told) :
    VendorsAgree tree s dirs := by
  have hbelow := exists_components_of_mem_walk h hwalk
  intro dir hdir dir' hdir' p hp q hq hpname hqname hpq
  rw [← hwalk] at hp hq
  -- each of the two directories is the first in some order
  have hfront := hsame _ (List.perm_cons_erase hdir)
  rw [← hsame _ (List.perm_cons_erase hdir')] at hfront
  obtain ⟨e, he, rfl⟩ := exists_mem_found hbelow (List.mem_cons_self (l := dirs.erase dir)) hp hpname
  obtain ⟨c, hc, hce⟩ : ∃ c ∈ sorted FoundComponent.path (found s walk (dir :: dirs.erase dir)),
      c.path.components = e.path.components := exists_mem_sorted he
  have htold := List.mem_map_of_mem (f := FoundComponent.told) hc
  rw [hfront] at htold
  obtain ⟨d, hd, hdc⟩ := List.mem_map.1 htold
  obtain ⟨-, hplace⟩ := Prod.mk.inj hdc
  obtain ⟨hcomponents, hvendor⟩ := Prod.mk.inj hplace
  rw [← vendor_iff_of_first hbelow hc hp hpname hce, ← hvendor]
  refine vendor_iff_of_first hbelow hd hq hqname ?_
  rw [hcomponents, hce, Path.same_iff.1 hpq]

/-! ## Any order of directories -/

/-- Every component file in one of the directories is listed once, under its name and by the order of paths; these
    lists are the same for all orders of the directories.  Whether a component is told of as a vendor's is the
    same for all of them just where the directories agree about it. -/
theorem components_of_dirs {tree : Tree} (h : tree.Proper) {walk : Path → List Path}
    (hwalk : ∀ dir p, p ∈ walk dir ↔ p ∈ tree.filesUnder dir) (s : Settings) :
    let dirs := s.componentDirs
    let listed := components s walk
    listed.Pairwise (fun c d => Before c.path d.path) ∧
      (∀ c ∈ listed, ∃ dir ∈ dirs, c.path ∈ tree.filesUnder dir ∧ nameIn? s c.path = some c.name ∧
        (c.vendor = true ↔ VendorBetween dir c.path)) ∧
      (∀ dir ∈ dirs, ∀ p ∈ tree.filesUnder dir, (nameIn? s p).isSome = true →
        ∃ c ∈ listed, c.path.same p = true) ∧
      (∀ dirs', dirs.Perm dirs' →
        (components { s with componentDirs := dirs' } walk).map FoundComponent.named =
          listed.map FoundComponent.named) ∧
      ((∀ dirs', dirs.Perm dirs' →
        (components { s with componentDirs := dirs' } walk).map FoundComponent.told =
          listed.map FoundComponent.told) ↔ VendorsAgree tree s dirs) := by
  have hbelow := exists_components_of_mem_walk h hwalk
  intro dirs listed
  refine ⟨pairwise_sorted FoundComponent.path _, fun c hc => ?_, fun dir hdir p hp hname => ?_,
    fun dirs' hperm => ?_, fun hsame => ?_, fun hagree dirs' hperm => ?_⟩
  · obtain ⟨dir, hdir, hfile, hname, hvendor⟩ := (mem_found hbelow).1 (mem_of_mem_sorted hc)
    exact ⟨dir, hdir, (hwalk _ _).1 hfile, hname, hvendor⟩
  · obtain ⟨d, hd, rfl⟩ := exists_mem_found hbelow hdir ((hwalk _ _).2 hp) hname
    obtain ⟨c, hc, hcd⟩ : ∃ c ∈ listed, c.path.components = d.path.components := exists_mem_sorted hd
    exact ⟨c, hc, Path.same_iff.2 hcd⟩
  · exact map_named_found hbelow fun _ => hperm.symm.mem_iff
  · exact vendorsAgree_of_map_told h hwalk hsame
  · exact (map_told_found h hwalk hagree fun _ => hperm.mem_iff).symm

/-- A workspace with a component of a vendor. -/
def libraryTree : Tree :=
  ⟨[(["w", "lib", "vendor", "x-card.view.html"], "<p></p>".toUTF8)],
    [["w"], ["w", "lib"], ["w", "lib", "vendor"]], ["w"]⟩

/-- The settings of a workspace with some directories of components. -/
def librarySettings (dirs : List Path) : Settings := ⟨⟨"/w"⟩, none, dirs, [⟨"/w"⟩], [], [], {}⟩

/-- A directory and the one around it, which has the directory for vendors in it for both. -/
theorem components_of_dirs_library :
    let s := librarySettings [⟨"/w/lib"⟩, ⟨"/w"⟩]
    libraryTree.Proper ∧ VendorsAgree libraryTree s s.componentDirs ∧
      ∀ dirs', s.componentDirs.Perm dirs' →
        (components { s with componentDirs := dirs' } libraryTree.filesUnder).map FoundComponent.told =
          (components s libraryTree.filesUnder).map FoundComponent.told := by
  intro s
  have hproper : libraryTree.Proper := by decide +kernel
  have hagree : VendorsAgree libraryTree s s.componentDirs := by decide +kernel
  obtain ⟨-, -, -, -, htold⟩ := components_of_dirs hproper (fun _ _ => .rfl) s
  exact ⟨hproper, hagree, htold.2 hagree⟩

/-- A component in a directory for vendors is not told of as a vendor's where that directory is named before the one
    around it, and is told of as one where it is named after it. -/
theorem vendor_of_first_dir :
    components (librarySettings [⟨"/w/lib/vendor"⟩, ⟨"/w/lib"⟩]) libraryTree.filesUnder =
        [⟨"x-card", ⟨"/w/lib/vendor/x-card.view.html"⟩, false⟩] ∧
      components (librarySettings [⟨"/w/lib"⟩, ⟨"/w/lib/vendor"⟩]) libraryTree.filesUnder =
        [⟨"x-card", ⟨"/w/lib/vendor/x-card.view.html"⟩, true⟩] := by
  constructor
  · rw [components_eq_sorted, sorted_of_pairwise (by decide +kernel)]
    decide +kernel
  · rw [components_eq_sorted, sorted_of_pairwise (by decide +kernel)]
    decide +kernel

end Discovery

end Stencil
