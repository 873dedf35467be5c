import Mathlib.Data.Set.List
import Stencil.Proofs.Files.Places
import Stencil.Proofs.Project.Discovered
import Stencil.Proofs.Project.Reports
/-
  The names of the files that pages are written to.

  The name of a page is what is left of its path below the first root that it lies in, with another ending.
  So two pages of a project have the same name just when the same is left of their paths, and the pages
  of one root never do.  Pages of different roots have the same name where the roots hold them under the same
  path.
-/

namespace Stencil

namespace Path

variable {p q base : Path} {roots : List Path}

/-! ## Roots around a path -/

/-- The first of some directories that a path lies in. -/
def rootOf? (roots : List Path) (p : Path) : Option Path :=
  roots.find? fun root => (p.relativeTo? root).isSome

/-- What is left of the components of a path below the first directory that it lies in. -/
def below (roots : List Path) (p : Path) : List Component :=
  p.components.drop ((rootOf? roots p).elim 0 fun root => root.components.length)

theorem isSome_relativeTo?_iff :
    (p.relativeTo? base).isSome = true ↔ ∃ cs, p.components = base.components ++ cs := by
  unfold relativeTo?
  dsimp only
  constructor
  · intro h
    cases hleft : dropFront base.components p.components with
    | none => simp [hleft] at h
    | some cs => exact ⟨cs, eq_append_of_dropFront hleft⟩
  · rintro ⟨cs, hcs⟩
    rw [hcs, dropFront_append]
    cases cs <;> rfl

theorem findSome?_relativeTo? (roots : List Path) (p : Path) :
    (roots.findSome? fun root => p.relativeTo? root) =
      (rootOf? roots p).bind fun root => p.relativeTo? root := by
  unfold rootOf?
  induction roots with
  | nil => rfl
  | cons root roots ih =>
    rw [List.findSome?_cons, List.find?_cons]
    cases hroot : p.relativeTo? root with
    | none => simpa [hroot] using ih
    | some q => simp [hroot]

/-- A path as it is seen from the first of some directories that it lies in, or as it is. -/
def seenFrom (roots : List Path) (p : Path) : Path :=
  (roots.findSome? fun root => p.relativeTo? root).getD p

theorem components_seenFrom (roots : List Path) (p : Path) : (seenFrom roots p).components = below roots p := by
  rw [seenFrom, findSome?_relativeTo?, below]
  cases hroot : rootOf? roots p with
  | none => rfl
  | some root =>
    have hlies := List.find?_some hroot
    obtain ⟨seen, hseen⟩ := Option.isSome_iff_exists.1 hlies
    rw [Option.bind_some, hseen, components_relativeTo? hseen]
    simp

/-- A path that lies in one of some directories is made of a first one of them and what is left below it. -/
theorem exists_rootOf? {root : Path} (hroot : root ∈ roots) {cs : List Component}
    (h : p.components = root.components ++ cs) :
    ∃ first ∈ roots, rootOf? roots p = some first ∧
      p.components = first.components ++ below roots p := by
  have hsome : (rootOf? roots p).isSome = true := by
    rw [rootOf?, List.find?_isSome]
    exact ⟨root, hroot, isSome_relativeTo?_iff.2 ⟨cs, h⟩⟩
  obtain ⟨first, hfirst⟩ := Option.isSome_iff_exists.1 hsome
  have hfound : (roots.find? fun root => (p.relativeTo? root).isSome) = some first := hfirst
  have hlies := List.find?_some hfound
  obtain ⟨left, hleft⟩ := isSome_relativeTo?_iff.1 hlies
  refine ⟨first, List.mem_of_find?_eq_some hfirst, hfirst, ?_⟩
  rw [below, hfirst, hleft]
  simp

end Path

/-! ## The names of pages -/

namespace Discovery

/-- The ending of the files of views. -/
theorem withoutEnd?_eq_some_iff {ending text stem : String} :
    withoutEnd? ending text = some stem ↔ text = stem ++ ending := by
  rw [withoutEnd?, Option.map_eq_some_iff]
  simp only [Text.afterMark_eq_some_iff]
  constructor
  · rintro ⟨rest, hrest, rfl⟩
    refine String.toList_injective ?_
    rw [← List.reverse_inj, hrest]
    simp
  · rintro rfl
    exact ⟨stem.toList.reverse, by simp, by simp⟩

/-- The last component of a view is a name with the ending of views. -/
theorem exists_stem {p : Path} (h : isView p = true) :
    ∃ cs stem, p.components = cs ++ [.name (stem ++ ".view.html")] := by
  obtain ⟨name, hname, hview⟩ := (Option.any_eq_true _ _).1 h
  obtain ⟨stem, hstem⟩ := Option.isSome_iff_exists.1 hview
  obtain ⟨cs, hcs⟩ := List.getLast?_eq_some_iff.1 (Path.fileName?_eq_some_iff.1 hname)
  refine ⟨cs, stem, ?_⟩
  rw [hcs, withoutEnd?_eq_some_iff.1 hstem]
  rfl

end Discovery

namespace Run

open Stencil.Path Discovery

variable {roots : List Path} {p q root : Path}

/-- The components in front of the name of a file, all of them where there is no such name. -/
def inFront (cs : List Component) : List Component :=
  match cs.getLast? with
  | some (.name _) => cs.dropLast
  | _ => cs

/-- The name of a file without the ending of a view or of a page. -/
def stemOf (name : String) : String :=
  (withoutEnd? ".view.html" name).getD ((withoutEnd? ".html" name).getD name)

theorem stemOf_view (stem : String) : stemOf (stem ++ ".view.html") = stem := by
  have hstem : withoutEnd? ".view.html" (stem ++ ".view.html") = some stem :=
    withoutEnd?_eq_some_iff.2 rfl
  rw [stemOf, hstem, Option.getD_some]

theorem exists_ending (name : String) : ∃ ending, name = stemOf name ++ ending := by
  unfold stemOf
  cases hview : withoutEnd? ".view.html" name with
  | some stem => exact ⟨_, withoutEnd?_eq_some_iff.1 hview⟩
  | none =>
    cases hpage : withoutEnd? ".html" name with
    | some stem => exact ⟨_, withoutEnd?_eq_some_iff.1 hpage⟩
    | none => exact ⟨"", by simp⟩

/-- What does not go across slashes is a name with the ending of pages. -/
theorem isName_html {stem : String} (hstem : '/' ∉ stem.toList) : IsName (stem ++ ".html") := by
  have hlong : 2 < (stem ++ ".html").toList.length := by simp
  refine ⟨by simp [hstem], ?_⟩
  unfold Path.component?
  rw [if_neg, if_neg, if_neg, String.ofList_toList]
  all_goals
    intro hshort
    simp only [List.isEmpty_iff, beq_iff_eq] at hshort
    simp [hshort] at hlong

theorem isName_stemOf {name : String} (hname : '/' ∉ name.toList) : IsName (stemOf name ++ ".html") := by
  obtain ⟨ending, hending⟩ := exists_ending name
  refine isName_html fun hslash => hname ?_
  rw [hending, String.toList_append]
  exact List.mem_append_left _ hslash

/-- With the ending of pages, a path has a name behind what was in front of its name. -/
theorem components_withEnding (seen : Path) :
    (seen.withFileName (stemOf (seen.fileName?.getD "") ++ ".html")).components =
      inFront seen.components ++ [.name (stemOf (seen.fileName?.getD "") ++ ".html")] := by
  cases hname : seen.fileName? with
  | some s =>
    have hlast := fileName?_eq_some_iff.1 hname
    obtain ⟨cs, hcs⟩ : ∃ cs, seen.components = cs ++ [.name s] := List.getLast?_eq_some_iff.1 hlast
    have hfront : inFront seen.components = cs := by
      rw [inFront, hlast, hcs]
      simp
    rw [hfront]
    exact components_withFileName hcs (isName_stemOf (isName_of_fileName? hname).1)
  | none =>
    have hfront : inFront seen.components = seen.components := by
      unfold inFront
      split
      · next s hlast =>
        rw [fileName?_eq_some_iff.2 hlast] at hname
        cases hname
      · rfl
    have hhtml : IsName (stemOf "" ++ ".html") := isName_stemOf (by simp)
    have hcomponents := components_of_isName hhtml
    unfold withFileName
    rw [hname, hfront, Option.getD_none, components_join_of_names (by simp [hcomponents]), hcomponents]

/-- Of a path that begins at the root, the name of its file alone. -/
def named (seen : Path) : Path :=
  if seen.isAbsolute then ⟨seen.fileName?.getD "index.view.html"⟩ else seen

theorem pageName_eq (p : Path) (roots : List Path) :
    pageName p roots =
      let seen := named (seenFrom roots p)
      seen.withFileName (stemOf (seen.fileName?.getD "") ++ ".html") := by
  unfold pageName
  dsimp only [named, seenFrom, stemOf]
  cases withoutEnd? ".view.html" _ with
  | none => dsimp only [Option.getD_none]
  | some stem => rfl

theorem components_named (seen : Path) :
    (named seen).components =
      if .root ∈ seen.components then [.name (seen.fileName?.getD "index.view.html")]
      else seen.components := by
  rw [named, if_congr isAbsolute_iff rfl rfl]
  split
  · cases hname : seen.fileName? with
    | some s => exact components_of_isName (isName_of_fileName? hname)
    | none => exact components_of_isName (by decide)
  · rfl

theorem fileName?_named {seen : Path} {s : String} (h : seen.fileName? = some s) :
    (named seen).fileName? = some s := by
  rw [fileName?_eq_some_iff, components_named]
  split
  · rw [h]
    rfl
  · exact fileName?_eq_some_iff.1 h

/-- The name of a page is what is left of its path below a root, with the other ending; what is left is the name of
    the file alone where it begins at the root of all. -/
theorem exists_components_pageName (p : Path) (roots : List Path) :
    ∃ stem, (pageName p roots).components =
        (if .root ∈ below roots p then [] else inFront (below roots p)) ++ [.name (stem ++ ".html")] ∧
      ∀ s, (below roots p).getLast? = some (.name s) → stem = stemOf s := by
  refine ⟨stemOf ((named (seenFrom roots p)).fileName?.getD ""), ?_, fun s hs => ?_⟩
  · rw [pageName_eq, components_withEnding, components_named, components_seenFrom]
    split
    · rfl
    · rfl
  · rw [← components_seenFrom, ← fileName?_eq_some_iff] at hs
    rw [fileName?_named hs, Option.getD_some]

/-- The name of a page below its root is what is left of its path, with the other ending. -/
theorem components_pageName {cs : List Component} {stem : String} (hroot : rootOf? roots p = some root)
    (hne : root.components ≠ [])
    (h : p.components = root.components ++ (cs ++ [.name (stem ++ ".view.html")])) :
    (pageName p roots).components = cs ++ [.name (stem ++ ".html")] := by
  have hbelow : below roots p = cs ++ [.name (stem ++ ".view.html")] := by
    rw [below, hroot, h]
    exact List.drop_left
  have hinside : .root ∉ below roots p := by
    intro hmem
    have htail : .root ∈ p.components.tail := by
      rw [h, List.tail_append_of_ne_nil hne, ← hbelow]
      exact List.mem_append_right _ hmem
    rcases component_cases htail with hup | ⟨s, hs⟩
    · cases hup
    · cases hs
  obtain ⟨_, hcomponents, hstem⟩ := exists_components_pageName p roots
  obtain rfl := (hstem (stem ++ ".view.html") (by simp [hbelow])).trans (stemOf_view stem)
  rw [hcomponents, if_neg hinside, hbelow, inFront]
  simp

/-! ## Pages of a project -/

/-- Templates lie below roots that are not empty and are no templates themselves. -/
structure Laid (tree : Tree) (s : Settings) : Prop where
  proper : tree.Proper
  roots : ∀ root ∈ s.templateRoots, root.components ≠ []
  files : ∀ root ∈ s.templateRoots, ∀ p ∈ Discovery.pages s tree.filesUnder, p.same root = false

variable {tree : Tree} {s : Settings}

/-- A page is made of its root and what is left of it below. -/
theorem exists_rootOf?_page (h : Laid tree s) (hp : p ∈ Discovery.pages s tree.filesUnder) :
    ∃ root ∈ s.templateRoots, rootOf? s.templateRoots p = some root ∧
      p.components = root.components ++ below s.templateRoots p := by
  obtain ⟨found, hfound, hpfound, -⟩ := exists_root_of_mem_pages hp
  obtain ⟨names, hnames⟩ := Tree.components_of_mem_filesUnder h.proper hpfound
  exact exists_rootOf? hfound hnames

/-- What is left of a page below its root ends with its name, and the name of the page with that name. -/
theorem exists_below (h : Laid tree s) (hp : p ∈ Discovery.pages s tree.filesUnder) :
    ∃ cs stem, below s.templateRoots p = cs ++ [.name (stem ++ ".view.html")] ∧
      (pageName p s.templateRoots).components = cs ++ [.name (stem ++ ".html")] := by
  obtain ⟨root, hroot, hfirst, hcomponents⟩ := exists_rootOf?_page h hp
  obtain ⟨-, -, -, hview⟩ := exists_root_of_mem_pages hp
  obtain ⟨ds, stem, hds⟩ := exists_stem hview
  rcases List.eq_nil_or_concat' (below s.templateRoots p) with hnil | ⟨cs, last, hbelow⟩
  · rw [hnil, List.append_nil] at hcomponents
    have hfile := h.files root hroot p hp
    rw [same_iff.2 hcomponents] at hfile
    cases hfile
  · rw [hbelow, ← List.append_assoc, hds] at hcomponents
    obtain ⟨rfl, hlast⟩ := List.append_inj' hcomponents rfl
    obtain rfl : .name (stem ++ ".view.html") = last := List.singleton_inj.1 hlast
    refine ⟨cs, stem, hbelow, components_pageName hfirst (h.roots root hroot) ?_⟩
    rw [hds, List.append_assoc]

/-- Names with an ending are told apart by what is in front of it. -/
theorem concat_name_inj {cs cs' : List Component} {stem stem' ending : String} :
    cs ++ [.name (stem ++ ending)] = cs' ++ [.name (stem' ++ ending)] ↔ cs = cs' ∧ stem = stem' := by
  constructor
  · intro h
    obtain ⟨hcs, hname⟩ := List.append_inj' h rfl
    have hname : stem ++ ending = stem' ++ ending := Component.name.inj (List.singleton_inj.1 hname)
    have htext : stem.toList ++ ending.toList = stem'.toList ++ ending.toList := by
      rw [← String.toList_append, hname, String.toList_append]
    exact ⟨hcs, String.toList_injective (List.append_cancel_right htext)⟩
  · rintro ⟨rfl, rfl⟩
    rfl

/-- Two pages have the same name just when the same is left of them below their roots. -/
theorem same_pageName_iff (h : Laid tree s) (hp : p ∈ Discovery.pages s tree.filesUnder)
    (hq : q ∈ Discovery.pages s tree.filesUnder) :
    (pageName p s.templateRoots).same (pageName q s.templateRoots) = true ↔
      below s.templateRoots p = below s.templateRoots q := by
  obtain ⟨cs, stem, hbelow, hname⟩ := exists_below h hp
  obtain ⟨cs', stem', hbelow', hname'⟩ := exists_below h hq
  rw [same_iff, hname, hname', hbelow, hbelow', concat_name_inj, concat_name_inj]

/-- Pages under the same path below their roots lie below one and the same root. -/
def Apart (tree : Tree) (s : Settings) : Prop :=
  ∀ p ∈ Discovery.pages s tree.filesUnder, ∀ q ∈ Discovery.pages s tree.filesUnder,
    below s.templateRoots p = below s.templateRoots q → rootOf? s.templateRoots p = rootOf? s.templateRoots q

instance (tree : Tree) (s : Settings) : Decidable (Apart tree s) :=
  inferInstanceAs (Decidable (∀ _ ∈ _, ∀ _ ∈ _, _ → _))

/-- The pages of a project have different names just when no two roots hold pages under the same path. -/
theorem apart_iff (h : Laid tree s) :
    Apart tree s ↔ ∀ p ∈ Discovery.pages s tree.filesUnder, ∀ q ∈ Discovery.pages s tree.filesUnder,
      (pageName p s.templateRoots).same (pageName q s.templateRoots) = true → p = q := by
  constructor
  · intro hapart p hp q hq hname
    have hbelow := (same_pageName_iff h hp hq).1 hname
    obtain ⟨root, -, hroot, hpcomponents⟩ := exists_rootOf?_page h hp
    obtain ⟨root', -, hroot', hqcomponents⟩ := exists_rootOf?_page h hq
    obtain rfl : root = root' := by
      have hroots := hapart p hp q hq hbelow
      rw [hroot, hroot'] at hroots
      exact Option.some.inj hroots
    refine eq_of_same_of_mem_pages hp hq (same_iff.2 ?_)
    rw [hpcomponents, hqcomponents, hbelow]
  · intro hnames p hp q hq hbelow
    rw [hnames p hp q hq ((same_pageName_iff h hp hq).2 hbelow)]

/-- A project with one root has no two pages of the same name. -/
theorem apart_of_root (h : Laid tree s) (hroots : s.templateRoots = [root]) : Apart tree s := by
  intro p hp q hq _
  obtain ⟨first, hfirst, hp⟩ := exists_rootOf?_page h hp
  obtain ⟨first', hfirst', hq⟩ := exists_rootOf?_page h hq
  rw [hroots, List.mem_singleton] at hfirst hfirst'
  rw [hp.1, hq.1, hfirst, hfirst']

/-- Below a root, the name of a page is made of names, unless the page is reached by dots. -/
theorem exists_names (h : Laid tree s) (hp : p ∈ Discovery.pages s tree.filesUnder)
    (hup : .up ∉ below s.templateRoots p) :
    ∃ names : List String, (pageName p s.templateRoots).components = names.map .name := by
  obtain ⟨cs, stem, hbelow, hname⟩ := exists_below h hp
  obtain ⟨root, hroot, -, hcomponents⟩ := exists_rootOf?_page h hp
  have hnames : ∀ c ∈ cs, c ∈ Set.range Component.name := by
    intro c hc
    have hleft : c ∈ below s.templateRoots p := by
      rw [hbelow]
      exact List.mem_append_left _ hc
    have htail : c ∈ p.components.tail := by
      rw [hcomponents, List.tail_append_of_ne_nil (h.roots root hroot)]
      exact List.mem_append_right _ hleft
    rcases component_cases htail with rfl | ⟨s, rfl⟩
    · exact absurd hleft hup
    · exact ⟨s, rfl⟩
  obtain ⟨names, rfl⟩ : cs ∈ Set.range (List.map Component.name) := by
    rw [Set.range_list_map]
    exact hnames
  exact ⟨names ++ [stem ++ ".html"], by rw [hname, List.map_append, List.map_singleton]⟩

/-- Pages with different names are written to different places. -/
theorem same_of_follow_eq (h : Laid tree s) (hp : p ∈ Discovery.pages s tree.filesUnder)
    (hq : q ∈ Discovery.pages s tree.filesUnder) (hpup : .up ∉ below s.templateRoots p)
    (hqup : .up ∉ below s.templateRoots q) {place : Place} {dir : Path}
    (hfollow : place.follow (outFile s.templateRoots dir p).components =
      place.follow (outFile s.templateRoots dir q).components) :
    (pageName p s.templateRoots).same (pageName q s.templateRoots) = true := by
  obtain ⟨names, hnames⟩ := exists_names h hp hpup
  obtain ⟨names', hnames'⟩ := exists_names h hq hqup
  have hout : ∀ {page : Path} {names : List String},
      (pageName page s.templateRoots).components = names.map .name →
      place.follow (outFile s.templateRoots dir page).components =
        place.follow dir.components ++ names := by
    intro page names hnames
    rw [outFile, components_join_of_names (by simp [hnames]), hnames, Place.follow_append,
      Place.follow_names]
  rw [hout hnames, hout hnames'] at hfollow
  rw [same_iff, hnames, hnames', List.append_cancel_left hfollow]

end Run

end Stencil
