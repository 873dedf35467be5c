import Stencil.Files.Disk
import Stencil.Proofs.Files.Paths
/-
  Where paths lead in a tree of files, and what writing changes.

  Where a path leads depends on its components and on the current directory alone; a tree only decides
  whether it can be followed at all.  So paths that lead to different places do so in every tree, and a file
  stays as it is while files are written elsewhere and directories are created.
-/

namespace Stencil

namespace Place

/-- The place where components lead from a place. -/
def follow (place : Place) : List Path.Component → Place
  | [] => place
  | .root :: cs => follow [] cs
  | .here :: cs => follow place cs
  | .up :: cs => follow place.dropLast cs
  | .name s :: cs => follow (place ++ [s]) cs

theorem follow_append (place : Place) (cs ds : List Path.Component) :
    place.follow (cs ++ ds) = (place.follow cs).follow ds := by
  induction cs generalizing place with
  | nil => rfl
  | cons c cs ih => cases c <;> exact ih _

theorem follow_names (place : Place) (names : List String) :
    place.follow (names.map .name) = place ++ names := by
  induction names generalizing place with
  | nil => simp [follow]
  | cons s names ih => simp [follow, ih]

/-- Components that are neither the root nor two dots lead downwards, by the same names from everywhere. -/
theorem exists_names_of_follow {cs : List Path.Component} (hroot : .root ∉ cs) (hup : .up ∉ cs) :
    ∃ names : List String, ∀ place : Place, place.follow cs = place ++ names := by
  induction cs with
  | nil => exact ⟨[], fun place => (List.append_nil place).symm⟩
  | cons c cs ih =>
    rw [List.mem_cons, not_or] at hroot hup
    obtain ⟨names, hnames⟩ := ih hroot.2 hup.2
    cases c with
    | root => exact absurd rfl hroot.1
    | up => exact absurd rfl hup.1
    | here => exact ⟨names, hnames⟩
    | name s =>
      refine ⟨s :: names, fun place => ?_⟩
      rw [follow, hnames, List.append_assoc, List.singleton_append]

/-- The parts of a relative path lead to where its components lead. -/
theorem follow_parts {p : Path} (h : p.isAbsolute = false) (place : Place) :
    place.follow (p.parts.filterMap (Path.component? false)) = place.follow p.components := by
  obtain ⟨part, rest, rfl, hslash⟩ := p.exists_ofParts
  rw [Path.isAbsolute_ofParts (Path.slashless_cons.1 hslash).1, decide_eq_false_iff_not] at h
  rw [Path.parts_ofParts hslash (List.cons_ne_nil _ _), Path.components_ofParts hslash, Path.start, if_neg h,
    List.filterMap_cons]
  by_cases hhere : Path.component? true part = some .here
  · -- a dot in front leads nowhere else
    obtain rfl := Path.eq_dot_of_here hhere
    rfl
  · rw [Path.component?_eq_of_not_here hhere]
    cases Path.component? true part <;> rfl

/-- A relative path is followed from where the path in front of it leads. -/
theorem follow_join {p : Path} (h : p.isAbsolute = false) (base : Path) (place : Place) :
    place.follow (base.join p).components = (place.follow base.components).follow p.components := by
  by_cases hbase : base.text = ""
  · obtain rfl : base = ⟨""⟩ := Path.eq_of_toList_eq (by rw [hbase])
    have hjoin : Path.join ⟨""⟩ p = p := by simp [Path.join]
    rw [hjoin]
    rfl
  · rw [Path.components_join hbase h, follow_append, follow_parts h]

end Place

namespace Tree

open Stencil.Path

variable {t t' : Tree} {p q : Path} {place : Place}

/-! ## Following -/

theorem ofList_beq (cs : List Char) (s : String) : (String.ofList cs == s) = (cs == s.toList) := by
  rw [Bool.eq_iff_iff, beq_iff_eq, beq_iff_eq, ← String.toList_inj, String.toList_ofList]

/-- A part is followed as the component it stands for. -/
theorem follow_cons (t : Tree) (place : Place) (part : List Char) (pieces : List String) :
    t.follow place (String.ofList part :: pieces) =
      if t.hasDirectory place then t.follow (place.follow (component? false part).toList) pieces
      else none := by
  have hempty : (String.ofList part).isEmpty = part.isEmpty := by
    cases part <;> simp
  rw [Tree.follow, hempty, ofList_beq, ofList_beq]
  unfold component?
  by_cases h : part.isEmpty = true
  · simp [h, Place.follow]
  · by_cases hdot : part = ['.']
    · simp [hdot, Place.follow]
    · by_cases hdots : part = ['.', '.']
      · simp [hdots, Place.follow]
      · simp [h, hdot, hdots, Place.follow]

/-- Parts behind slashes are followed as the components they stand for. -/
theorem follow_eq {ps : List (List Char)} {found : Place}
    (h : t.follow place (ps.map String.ofList) = some found) :
    found = place.follow (ps.filterMap (component? false)) := by
  induction ps generalizing place with
  | nil => exact (Option.some.inj h).symm
  | cons part ps ih =>
    rw [List.map_cons, follow_cons] at h
    split at h
    · rw [ih h, ← Place.follow_append, List.filterMap_cons]
      cases component? false part <;> rfl
    · cases h

theorem locate_eq {found : Place} (h : t.locate p = some found) :
    found = t.current.follow p.components := by
  unfold locate at h
  split at h
  · cases h
  · rw [pieceTexts_eq] at h
    cases habsolute : p.isAbsolute with
    | false =>
      rw [habsolute, if_neg Bool.false_ne_true] at h
      rw [follow_eq h, Place.follow_parts habsolute]
    | true =>
      rw [habsolute, if_pos rfl] at h
      obtain ⟨part, rest, rfl, hslash⟩ := p.exists_ofParts
      rw [isAbsolute_ofParts (slashless_cons.1 hslash).1, decide_eq_true_iff] at habsolute
      rw [parts_ofParts hslash (List.cons_ne_nil _ _)] at h
      rw [follow_eq h, components_ofParts hslash, start, if_pos habsolute, habsolute.1]
      rfl

/-! ## Listing -/

/-- Every file and the directories on the way to it have names that a path can have. -/
def Proper (t : Tree) : Prop := ∀ file ∈ t.files, ∀ s ∈ file.1, IsName s

instance (t : Tree) : Decidable t.Proper := inferInstanceAs (Decidable (∀ _ ∈ _, _))

theorem eq_append_of_below? {place other : Place} {names : List String}
    (h : below? place other = some names) : other = place ++ names := by
  induction place generalizing other with
  | nil => exact Option.some.inj h
  | cons a place ih =>
    cases other with
    | nil => cases h
    | cons b other =>
      unfold below? at h
      split at h
      · next hab => rw [hab, ih h, List.cons_append]
      · cases h

/-- The files found under a path lie below it by their names. -/
theorem components_of_mem_filesUnder (h : t.Proper) {root : Path} (hp : p ∈ t.filesUnder root) :
    ∃ names : List String, p.components = root.components ++ names.map .name := by
  unfold filesUnder at hp
  split at hp
  · cases hp
  · next place _ =>
    split at hp
    · obtain rfl := List.mem_singleton.1 hp
      exact ⟨[], (List.append_nil _).symm⟩
    · obtain ⟨file, hfile, hnames⟩ := List.mem_filterMap.1 hp
      obtain ⟨names, hbelow, rfl⟩ := Option.map_eq_some_iff.1 hnames
      have hproper : ∀ s ∈ names, IsName s := by
        intro s hs
        refine h file hfile s ?_
        rw [eq_append_of_below? hbelow]
        exact List.mem_append_right place hs
      have hcomponents := components_intercalate hproper
      refine ⟨names, ?_⟩
      rw [components_join_of_names (by simp [hcomponents]), hcomponents]

/-! ## Trees that grow -/

/-- A tree has become another one, which starts from the same directory and has all the directories. -/
structure Grows (t t' : Tree) : Prop where
  current : t'.current = t.current
  directory : ∀ place, t.hasDirectory place = true → t'.hasDirectory place = true

theorem Grows.refl (t : Tree) : t.Grows t := ⟨rfl, fun _ h => h⟩

theorem Grows.trans {t'' : Tree} (h : t.Grows t') (h' : t'.Grows t'') : t.Grows t'' :=
  ⟨h'.current.trans h.current, fun place hplace => h'.directory place (h.directory place hplace)⟩

theorem Grows.follow (h : t.Grows t') {pieces : List String} {found : Place}
    (hfound : t.follow place pieces = some found) : t'.follow place pieces = some found := by
  induction pieces generalizing place with
  | nil => exact hfound
  | cons piece pieces ih =>
    rw [Tree.follow] at hfound ⊢
    split at hfound
    · next hplace =>
      rw [if_pos (h.directory place hplace)]
      split at hfound
      · next hstays =>
        rw [if_pos hstays]
        exact ih hfound
      · next hmoves =>
        rw [if_neg hmoves]
        split at hfound
        · next hup =>
          rw [if_pos hup]
          exact ih hfound
        · next hdown =>
          rw [if_neg hdown]
          exact ih hfound
    · cases hfound

/-- What can be found in a tree is found at the same place when the tree has grown. -/
theorem Grows.locate (h : t.Grows t') {found : Place} (hfound : t.locate p = some found) :
    t'.locate p = some found := by
  unfold Tree.locate at hfound ⊢
  split
  · next hempty => simp [hempty] at hfound
  · next hempty =>
    rw [if_neg hempty] at hfound
    rw [h.current]
    exact h.follow hfound

theorem grows_addDirectory (t : Tree) (place : Place) : t.Grows (t.addDirectory place) := by
  unfold addDirectory
  split
  · exact .refl t
  · refine ⟨rfl, fun other hother => ?_⟩
    unfold hasDirectory at hother ⊢
    rcases Bool.or_eq_true_iff.1 hother with hroot | hmem
    · simp [hroot]
    · simp [List.contains_iff_mem.1 hmem]

theorem grows_addFile (t : Tree) (place : Place) (bytes : ByteArray) : t.Grows (t.addFile place bytes) :=
  ⟨rfl, fun _ h => h⟩

/-- There is a file at a place when it was put there, and elsewhere when it was there before. -/
theorem bytesAt?_addFile (t : Tree) (place other : Place) (bytes : ByteArray) :
    (t.addFile place bytes).bytesAt? other = if other = place then some bytes else t.bytesAt? other := by
  unfold addFile bytesAt?
  rw [List.find?_append, List.find?_filter]
  by_cases h : other = place
  · subst h
    have hnone : (t.files.find? fun file => decide (file.1 != other ∧ (file.1 == other) = true)) = none := by
      rw [List.find?_eq_none]
      intro file _
      simp
    rw [hnone, if_pos rfl]
    simp
  · have hsame : ∀ file : Place × ByteArray,
        decide ((file.1 != place) = true ∧ (file.1 == other) = true) = (file.1 == other) := by
      intro file
      by_cases hfile : file.1 = other <;> simp [hfile, h]
    have hlast : (place == other) = false := by simpa using fun h' => h h'.symm
    simp only [hsame, if_neg h, List.find?_cons, hlast, List.find?_nil, Option.or_none]

theorem createAll_grows (t : Tree) (ps : List Path) :
    t.Grows (t.createAll ps).2 ∧ (t.createAll ps).2.files = t.files := by
  induction ps generalizing t with
  | nil => exact ⟨.refl t, rfl⟩
  | cons p ps ih =>
    unfold createAll createDirectory?
    cases t.locate p with
    | none => exact ⟨.refl t, rfl⟩
    | some place =>
      dsimp only
      split
      · next hcreated =>
        split at hcreated
        · cases hcreated
        · obtain rfl := Option.some.inj hcreated
          obtain ⟨hgrows, hfiles⟩ := ih (t.addDirectory place)
          refine ⟨(t.grows_addDirectory place).trans hgrows, hfiles.trans ?_⟩
          unfold addDirectory
          split <;> rfl
      · exact ⟨.refl t, rfl⟩

/-! ## Files that stay -/

/-- A path leads to a file with a text. -/
def Holds (t : Tree) (p : Path) (text : String) : Prop :=
  ∃ place, t.locate p = some place ∧ t.bytesAt? place = some text.toUTF8

theorem Holds.read? {text : String} (h : t.Holds p text) : t.read? p = some text := by
  obtain ⟨place, hplace, hbytes⟩ := h
  rw [Tree.read?, hplace]
  show (t.bytesAt? place).bind String.fromUTF8? = some text
  rw [hbytes]
  exact dif_pos text.isValidUTF8

/-- A file that is as it was is still there when the tree has grown. -/
theorem Holds.of_grows {text : String} (h : t.Holds p text) (hgrows : t.Grows t')
    (hsame : t'.bytesAt? (t.current.follow p.components) = t.bytesAt? (t.current.follow p.components)) :
    t'.Holds p text := by
  obtain ⟨place, hplace, hbytes⟩ := h
  rw [← locate_eq hplace] at hsame
  exact ⟨place, hgrows.locate hplace, hsame.trans hbytes⟩

/-- Creating directories leaves files as they are. -/
theorem bytesAt?_createDirectories (t : Tree) (dir : Path) (place : Place) :
    ((disk.createDirectories dir).run t).2.bytesAt? place = t.bytesAt? place := by
  unfold bytesAt?
  exact congrArg _ (congrArg _ (t.createAll_grows dir.upToEach).2)

theorem grows_createDirectories (t : Tree) (dir : Path) :
    t.Grows ((disk.createDirectories dir).run t).2 :=
  (t.createAll_grows dir.upToEach).1

theorem run_write (t : Tree) (q : Path) (text : String) :
    (disk.write q text).run t = (t.write? q text).elim (false, t) fun t' => (true, t') := by
  unfold disk
  rw [StateT.run_modifyGet]
  cases t.write? q text with
  | none => rfl
  | some t' => rfl

/-- A file is written where its path leads to, or nothing is changed. -/
theorem write_cases (t : Tree) (q : Path) (text : String) :
    (∃ place, t.locate q = some place ∧
      (disk.write q text).run t = (true, t.addFile place text.toUTF8)) ∨
    (disk.write q text).run t = (false, t) := by
  have hrun := t.run_write q text
  unfold write? at hrun
  cases hplace : t.locate q with
  | none =>
    rw [hplace] at hrun
    exact .inr hrun
  | some place =>
    rw [hplace] at hrun
    dsimp only at hrun
    by_cases hdirectory : t.hasDirectory place = true
    · rw [if_pos hdirectory] at hrun
      exact .inr hrun
    · rw [if_neg hdirectory] at hrun
      exact .inl ⟨place, rfl, hrun⟩

/-- Writing a file changes nothing but the file that its path leads to. -/
theorem eq_follow_of_write {text : String}
    (h : ((disk.write q text).run t).2.bytesAt? place ≠ t.bytesAt? place) :
    place = t.current.follow q.components := by
  rcases t.write_cases q text with ⟨found, hfound, hrun⟩ | hrun
  · rw [hrun, bytesAt?_addFile] at h
    by_contra hother
    rw [← locate_eq hfound] at hother
    exact h (if_neg hother)
  · rw [hrun] at h
    exact absurd rfl h

theorem grows_write (t : Tree) (q : Path) (text : String) : t.Grows ((disk.write q text).run t).2 := by
  rcases t.write_cases q text with ⟨place, -, hrun⟩ | hrun
  · rw [hrun]
    exact t.grows_addFile place _
  · rw [hrun]
    exact .refl t

/-- A file that is written is there. -/
theorem holds_write {text : String} (h : ((disk.write q text).run t).1 = true) :
    ((disk.write q text).run t).2.Holds q text := by
  rcases t.write_cases q text with ⟨place, hplace, hrun⟩ | hrun
  · rw [hrun]
    refine ⟨place, (t.grows_addFile place _).locate hplace, ?_⟩
    rw [bytesAt?_addFile, if_pos rfl]
  · rw [hrun] at h
    cases h

end Tree

end Stencil
