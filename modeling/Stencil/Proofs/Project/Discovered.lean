import Mathlib.Data.List.Pairwise
import Mathlib.Data.List.Sort
import Stencil.Project.Discovery
import Stencil.Proofs.Files.Paths
/-
  The pages that a project finds.

  Pages are listed by the order of their paths, and neighbours that are the same by their components are listed
  once.  The order of components is a total one in which only equal components are equivalent, so all paths
  with the same components are neighbours, and each page is listed once altogether.
-/

namespace Stencil

/-! ## The order of paths -/

namespace Path

namespace Component

/-- The text of a name, and nothing for other components. -/
def nameText : Component → String
  | .name s => s
  | _ => ""

/-- Components are compared by their kinds, and names then by their texts. -/
theorem compare_eq : Component.compare = compareLex (compareOn compare.rank) (compareOn nameText) := by
  funext a b
  cases a <;> cases b <;> rfl

instance : Std.TransCmp Component.compare := by
  rw [compare_eq]
  infer_instance

theorem eq_of_compare_name {s t : String} (h : Component.compare (.name s) (.name t) = .eq) : s = t :=
  Std.LawfulEqOrd.eq_of_compare h

instance : Std.LawfulEqCmp Component.compare where
  compare_self := Std.ReflCmp.compare_self
  eq_of_compare {a b} h := by
    cases a <;> cases b <;> first | rfl | exact congrArg _ (eq_of_compare_name h) | cases h

end Component

instance : Std.TransCmp Path.compare where
  eq_swap :=
    (inferInstance : Std.TransCmp (List.compareLex Component.compare)).eq_swap
  isLE_trans :=
    (inferInstance : Std.TransCmp (List.compareLex Component.compare)).isLE_trans

theorem components_eq_of_compare {p q : Path} (h : p.compare q = .eq) : p.components = q.components :=
  (inferInstance : Std.LawfulEqCmp (List.compareLex Component.compare)).eq_of_compare h

theorem same_iff {p q : Path} : p.same q = true ↔ p.components = q.components := by
  rw [same, beq_iff_eq]

end Path

namespace Discovery

variable {p q r : Path}

theorem notAfter_iff : notAfter p q = true ↔ (p.compare q).isLE = true := by
  unfold notAfter
  cases p.compare q <;> decide

theorem notAfter_trans (hpq : notAfter p q = true) (hqr : notAfter q r = true) : notAfter p r = true := by
  rw [notAfter_iff] at *
  exact Std.TransCmp.isLE_trans hpq hqr

theorem notAfter_total (p q : Path) : (notAfter p q || notAfter q p) = true := by
  have hswap : q.compare p = (p.compare q).swap := Std.OrientedCmp.eq_swap
  unfold notAfter
  rw [hswap]
  cases p.compare q <;> rfl

/-- Only paths with the same components come neither before nor after each other. -/
theorem same_of_notAfter (hpq : notAfter p q = true) (hqp : notAfter q p = true) : p.same q = true := by
  have hswap : p.compare q = (q.compare p).swap := Std.OrientedCmp.eq_swap
  unfold notAfter at hpq hqp
  cases hqp' : q.compare p with
  | lt => simp [hswap, hqp'] at hpq
  | gt => simp [hqp'] at hqp
  | eq => exact Path.same_iff.2 (Path.components_eq_of_compare (by rw [hswap, hqp']; rfl))

/-! ## Each once -/

/-- One path comes before another and is not the same. -/
def Before (p q : Path) : Prop := notAfter p q = true ∧ p.same q = false

/-- What comes after something that is not the same as a path, and not before the path, is not the same
    either. -/
theorem Before.of_notAfter (hpq : notAfter p q = true) (hqr : Before q r) : Before p r := by
  refine ⟨notAfter_trans hpq hqr.1, ?_⟩
  by_contra hsame
  have hcomponents : p.components = r.components := Path.same_iff.1 (by simpa using hsame)
  have hrq : notAfter r q = true := by
    rwa [notAfter, Path.compare, ← hcomponents]
  have hqr' := same_of_notAfter hqr.1 hrq
  rw [hqr.2] at hqr'
  cases hqr'

theorem compare_of_before (h : Before p q) : p.compare q = .lt := by
  cases hpq : p.compare q with
  | lt => rfl
  | gt => simp [Before, notAfter, hpq] at h
  | eq =>
    have hsame := h.2
    rw [Path.same_iff.2 (Path.components_eq_of_compare hpq)] at hsame
    cases hsame

variable {α : Type} {key : α → Path}

theorem mem_of_mem_onceEach {a : α} {as : List α} (h : a ∈ onceEach key as) : a ∈ as := by
  induction as with
  | nil => exact h
  | cons b as ih =>
    rcases List.mem_cons.1 h with rfl | h
    · exact List.mem_cons_self
    · exact List.mem_cons_of_mem _ (ih (List.dropWhile_sublist _ |>.subset h))

/-- Without the elements at its front that are the same as one before it, a list comes after that one. -/
theorem before_of_mem_dropWhile {a : α} {as : List α} (hfirst : ∀ b ∈ as, notAfter (key a) (key b) = true)
    (has : as.Pairwise fun b c => Before (key b) (key c)) :
    ∀ b ∈ as.dropWhile (fun b => (key a).same (key b)), Before (key a) (key b) := by
  induction as with
  | nil => exact nofun
  | cons c as ih =>
    obtain ⟨hc, has⟩ := List.pairwise_cons.1 has
    obtain ⟨hac, hfirst⟩ := List.forall_mem_cons.1 hfirst
    rw [List.dropWhile_cons]
    split
    · exact ih hfirst has
    · next hsame =>
      intro b hb
      rcases List.mem_cons.1 hb with rfl | hb
      · exact ⟨hac, by simpa using hsame⟩
      · exact .of_notAfter hac (hc b hb)

/-- Of elements in their order, those that are kept come one before the other. -/
theorem pairwise_onceEach {as : List α} (h : as.Pairwise fun a b => notAfter (key a) (key b) = true) :
    (onceEach key as).Pairwise fun a b => Before (key a) (key b) := by
  induction as with
  | nil => exact .nil
  | cons a as ih =>
    obtain ⟨hfirst, has⟩ := List.pairwise_cons.1 h
    have hrest := ih has
    refine List.pairwise_cons.2 ⟨?_, hrest.sublist (List.dropWhile_sublist _)⟩
    exact before_of_mem_dropWhile (fun b hb => hfirst b (mem_of_mem_onceEach hb)) hrest

theorem pairwise_mergeSort (key : α → Path) (found : List α) :
    (found.mergeSort fun a b => notAfter (key a) (key b)).Pairwise
      fun a b => notAfter (key a) (key b) = true := by
  apply List.pairwise_mergeSort
  · intro a b c
    exact notAfter_trans
  · intro a b
    exact notAfter_total (key a) (key b)

theorem pairwise_sorted (key : α → Path) (found : List α) :
    (sorted key found).Pairwise fun a b => Before (key a) (key b) :=
  pairwise_onceEach (pairwise_mergeSort key found)

/-- What is already in its order is only rid of what is there twice. -/
theorem sorted_of_pairwise {found : List α}
    (h : found.Pairwise fun a b => notAfter (key a) (key b) = true) : sorted key found = onceEach key found := by
  rw [sorted, List.mergeSort_of_pairwise h]

theorem mem_of_mem_sorted {a : α} {found : List α} (h : a ∈ sorted key found) : a ∈ found :=
  (List.mergeSort_perm found _).mem_iff.1 (mem_of_mem_onceEach h)

/-! ## The first of each -/

theorem same_comm (p q : Path) : p.same q = q.same p := BEq.comm

/-- Of elements in their order, the one that is kept is the first of those that are the same. -/
theorem find?_of_mem_onceEach {a : α} {as : List α}
    (h : as.Pairwise fun a b => notAfter (key a) (key b) = true) (ha : a ∈ onceEach key as) :
    as.find? (fun b => (key a).same (key b)) = some a := by
  induction as with
  | nil => cases ha
  | cons b as ih =>
    have hbefore := pairwise_onceEach h
    rw [onceEach] at ha hbefore
    rcases List.mem_cons.1 ha with rfl | ha
    · exact List.find?_cons_of_pos (Path.same_iff.2 rfl)
    · have hdifferent := ((List.pairwise_cons.1 hbefore).1 a ha).2
      rw [same_comm] at hdifferent
      rw [List.find?_cons_of_neg (by simp [hdifferent])]
      exact ih (List.pairwise_cons.1 h).2 (List.dropWhile_sublist _ |>.subset ha)

/-- Nothing is left out without something that is the same. -/
theorem exists_mem_onceEach {b : α} {as : List α} (hb : b ∈ as) :
    ∃ a ∈ onceEach key as, (key a).components = (key b).components := by
  induction as with
  | nil => cases hb
  | cons c as ih =>
    rw [onceEach]
    rcases List.mem_cons.1 hb with rfl | hb
    · exact ⟨b, List.mem_cons_self, rfl⟩
    · obtain ⟨a, ha, hab⟩ := ih hb
      have hsplit : a ∈ (onceEach key as).takeWhile (fun d => (key c).same (key d)) ++
          (onceEach key as).dropWhile (fun d => (key c).same (key d)) := by
        rwa [List.takeWhile_append_dropWhile]
      rcases List.mem_append.1 hsplit with ha | ha
      · have hca := Path.same_iff.1 (List.all_eq_true.1 List.all_takeWhile a ha)
        exact ⟨c, List.mem_cons_self, hca.trans hab⟩
      · exact ⟨a, List.mem_cons_of_mem _ ha, hab⟩

theorem notAfter_of_components_eq (h : p.components = q.components) : notAfter p q = true := by
  rw [notAfter_iff, Path.compare, h]
  exact Std.ReflCmp.isLE_rfl

/-- Sorting leaves those that are the same in the order in which they were found. -/
theorem filter_mergeSort (found : List α) (p : Path) :
    (found.mergeSort fun a b => notAfter (key a) (key b)).filter (fun b => p.same (key b)) =
      found.filter fun b => p.same (key b) := by
  have hperm := List.mergeSort_perm found fun a b => notAfter (key a) (key b)
  have hsorted : (found.filter fun b => p.same (key b)).Pairwise
      fun a b => notAfter (key a) (key b) = true := by
    refine List.pairwise_of_forall_mem_list fun a ha b hb => notAfter_of_components_eq ?_
    rw [← Path.same_iff.1 (List.mem_filter.1 ha).2, Path.same_iff.1 (List.mem_filter.1 hb).2]
  have hkept : (found.filter fun b => p.same (key b)).Sublist
      (found.mergeSort fun a b => notAfter (key a) (key b)) := by
    apply List.sublist_mergeSort
    · intro a b c
      exact notAfter_trans
    · intro a b
      exact notAfter_total (key a) (key b)
    · exact hsorted
    · exact List.filter_sublist
  have hsublist := hkept.filter fun b => p.same (key b)
  rw [List.filter_filter] at hsublist
  simp only [Bool.and_self] at hsublist
  exact (hsublist.eq_of_length (hperm.filter _).length_eq.symm).symm

/-- What is kept of those that are the same is the first that was found. -/
theorem find?_of_mem_sorted {a : α} {found : List α} (ha : a ∈ sorted key found) :
    found.find? (fun b => (key a).same (key b)) = some a := by
  rw [← List.head?_filter, ← filter_mergeSort, List.head?_filter]
  exact find?_of_mem_onceEach (pairwise_mergeSort key found) ha

theorem exists_mem_sorted {b : α} {found : List α} (hb : b ∈ found) :
    ∃ a ∈ sorted key found, (key a).components = (key b).components :=
  exists_mem_onceEach ((List.mergeSort_perm found _).mem_iff.2 hb)

/-- The paths that are listed, and their order, depend only on which paths were found. -/
theorem map_components_sorted {found found' : List α}
    (h : ∀ cs, (∃ a ∈ found, (key a).components = cs) ↔ ∃ a ∈ found', (key a).components = cs) :
    ((sorted key found).map fun a => (key a).components) =
      (sorted key found').map fun a => (key a).components := by
  let comes (cs ds : List Path.Component) : Prop := List.compareLex Path.Component.compare cs ds = .lt
  have hantisymm : Std.Antisymm comes := by
    refine ⟨fun cs ds hcs hds => ?_⟩
    have hswap : List.compareLex Path.Component.compare cs ds =
        (List.compareLex Path.Component.compare ds cs).swap := Std.OrientedCmp.eq_swap
    rw [hds] at hswap
    cases hcs.symm.trans hswap
  have hirrefl : Std.Irrefl comes := by
    refine ⟨fun cs hcs => ?_⟩
    have hself : List.compareLex Path.Component.compare cs cs = .eq := Std.ReflCmp.compare_self
    cases hcs.symm.trans hself
  have hordered : ∀ as : List α, ((sorted key as).map fun a => (key a).components).Pairwise comes := by
    intro as
    rw [List.pairwise_map]
    exact (pairwise_sorted key as).imp compare_of_before
  have hmem : ∀ (as : List α) cs, cs ∈ ((sorted key as).map fun a => (key a).components) ↔
      ∃ a ∈ as, (key a).components = cs := by
    intro as cs
    rw [List.mem_map]
    constructor
    · rintro ⟨a, ha, hcs⟩
      exact ⟨a, mem_of_mem_sorted ha, hcs⟩
    · rintro ⟨a, ha, rfl⟩
      exact exists_mem_sorted ha
  refine (hordered found).eq_of_mem_iff (hordered found') fun cs => ?_
  rw [hmem, hmem, h]

/-! ## Pages -/

variable {s : Settings} {filesUnder : Path → List Path}

/-- A page is a view that is found through a root. -/
theorem exists_root_of_mem_pages (h : p ∈ pages s filesUnder) :
    ∃ root ∈ s.templateRoots, p ∈ filesUnder root ∧ isView p = true := by
  obtain ⟨root, hroot, hp⟩ := List.mem_flatMap.1 (mem_of_mem_sorted h)
  have hview := (List.mem_filter.1 hp).1
  obtain ⟨hfile, hview⟩ := List.mem_filter.1 hview
  rw [Bool.and_eq_true] at hview
  exact ⟨root, hroot, hfile, hview.1⟩

theorem pairwise_pages (s : Settings) (filesUnder : Path → List Path) :
    (pages s filesUnder).Pairwise Before :=
  pairwise_sorted id _

/-- Pages with the same components are one page. -/
theorem eq_of_same_of_mem_pages (hp : p ∈ pages s filesUnder) (hq : q ∈ pages s filesUnder)
    (h : p.same q = true) : p = q := by
  by_contra hne
  have hdistinct : (pages s filesUnder).Pairwise fun p q => p.same q = false :=
    (pairwise_pages s filesUnder).imp fun hbefore => hbefore.2
  have hsymmetric : Std.Symm fun p q : Path => p.same q = false := by
    refine ⟨fun p q hpq => ?_⟩
    rwa [same_comm]
  have hnot := hdistinct.forall hp hq hne
  rw [h] at hnot
  cases hnot

end Discovery

end Stencil
