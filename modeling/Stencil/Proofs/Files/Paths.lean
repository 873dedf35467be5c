import Mathlib.Data.List.Basic
import Stencil.Files.Path
/-
  The parts of paths.

  The text of a path is cut into parts at its slashes, and its components are read off the parts one by one:
  the first part says whether the path begins at the root or with a dot, and each later one stands for a
  name, for two dots or for nothing.  What is done with the text of a path, to put one behind another, to
  take the last component off or to begin later, is done with the list of its parts.
-/

namespace Stencil.Path

/-! ## Parts -/

/-- The texts between the slashes of a path. -/
def parts (p : Path) : List (List Char) := p.text.toList.splitOn '/'

/-- The path that has some parts. -/
def ofParts (ps : List (List Char)) : Path := ⟨String.ofList (['/'].intercalate ps)⟩

theorem eq_of_toList_eq {p q : Path} (h : p.text.toList = q.text.toList) : p = q := by
  cases p
  cases q
  exact congrArg mk (String.toList_injective h)

/-- There are no slashes in some parts. -/
def Slashless (ps : List (List Char)) : Prop := ∀ part ∈ ps, '/' ∉ part

@[simp] theorem slashless_nil : Slashless [] := nofun

@[simp] theorem slashless_cons {part : List Char} {ps : List (List Char)} :
    Slashless (part :: ps) ↔ '/' ∉ part ∧ Slashless ps :=
  List.forall_mem_cons

@[simp] theorem slashless_append {ps qs : List (List Char)} :
    Slashless (ps ++ qs) ↔ Slashless ps ∧ Slashless qs :=
  List.forall_mem_append

theorem parts_ne_nil (p : Path) : p.parts ≠ [] := List.splitOn_ne_nil _ _

theorem ofParts_parts (p : Path) : ofParts p.parts = p := by
  rw [ofParts, parts, List.intercalate_splitOn, String.ofList_toList]

theorem parts_ofParts {ps : List (List Char)} (hslash : Slashless ps) (hne : ps ≠ []) :
    (ofParts ps).parts = ps := by
  rw [parts, ofParts, String.toList_ofList, List.splitOn_intercalate '/' hslash hne]

theorem slashless_parts (p : Path) : Slashless p.parts := by
  unfold parts
  induction p.text.toList with
  | nil => simp
  | cons c cs ih =>
    rw [List.splitOn_cons_eq_if_modifyHead]
    cases hcs : cs.splitOn '/' with
    | nil => exact absurd hcs (List.splitOn_ne_nil _ _)
    | cons part ps =>
      rw [hcs] at ih
      split
      · simpa using ih
      · next hc =>
        have hslash : '/' ≠ c := fun h => hc (by simp [← h])
        simpa [hslash] using ih

theorem intercalate_append (ps : List (List Char)) {qs : List (List Char)} (hqs : qs ≠ []) :
    ['/'].intercalate (ps ++ qs) = ps.flatMap (· ++ ['/']) ++ ['/'].intercalate qs := by
  induction ps with
  | nil => simp
  | cons first ps ih =>
    cases hrest : ps ++ qs with
    | nil => simp [hqs] at hrest
    | cons second rest =>
      rw [List.cons_append, hrest, List.intercalate_cons_cons, ← hrest, ih]
      simp

theorem intercalate_concat (ps : List (List Char)) (part : List Char) :
    ['/'].intercalate (ps ++ [part]) = ps.flatMap (· ++ ['/']) ++ part := by
  rw [intercalate_append ps (by simp), List.intercalate_singleton]

theorem exists_concat_ofParts (p : Path) :
    ∃ ps part, p.parts = ps ++ [part] ∧ p.text.toList = ps.flatMap (· ++ ['/']) ++ part := by
  refine ⟨p.parts.dropLast, p.parts.getLast p.parts_ne_nil, (List.dropLast_concat_getLast _).symm, ?_⟩
  rw [← intercalate_concat, List.dropLast_concat_getLast, parts, List.intercalate_splitOn]

/-- Parts, each with a text that stands in front and all up to its end. -/
def ends (before : List Char) : List (List Char) → List (List Char × List Char)
  | [] => []
  | part :: ps => (part, before ++ part) :: ends (before ++ part ++ ['/']) ps

theorem pieces_eq (before piece cs : List Char) :
    pieces (piece ++ before.reverse) piece cs =
      ends before ((cs.splitOn '/').modifyHead (piece.reverse ++ ·)) := by
  induction cs generalizing before piece with
  | nil => simp [pieces, ends]
  | cons c cs ih =>
    rw [pieces, List.splitOn_cons_eq_if_modifyHead]
    cases hcs : cs.splitOn '/' with
    | nil => exact absurd hcs (List.splitOn_ne_nil _ _)
    | cons part ps =>
      split
      · next hc =>
        obtain rfl : c = '/' := by simpa using hc
        have hrest := ih (before ++ piece.reverse ++ ['/']) []
        rw [hcs] at hrest
        simpa [ends] using hrest
      · next hc =>
        have hrest := ih before (c :: piece)
        rw [hcs] at hrest
        simpa [hc] using hrest

theorem map_fst_ends (before : List Char) (ps : List (List Char)) :
    (ends before ps).map Prod.fst = ps := by
  induction ps generalizing before with
  | nil => rfl
  | cons part ps ih => rw [ends, List.map_cons, ih]

theorem pieces_text (p : Path) : pieces [] [] p.text.toList = ends [] p.parts := by
  have hpieces := pieces_eq [] [] p.text.toList
  rw [← parts] at hpieces
  obtain ⟨part, rest, hparts⟩ := List.exists_cons_of_ne_nil p.parts_ne_nil
  rw [hparts] at hpieces ⊢
  exact hpieces

theorem pieceTexts_eq (p : Path) : p.pieceTexts = p.parts.map String.ofList := by
  rw [pieceTexts, pieces_text, ← map_fst_ends [] p.parts, List.map_map, map_fst_ends]
  rfl

/-! ## Components -/

/-- What a part stands for: in front, or behind a slash. -/
def component? (first : Bool) (part : List Char) : Option Component :=
  if part.isEmpty then none
  else if part == ['.'] then if first then some .here else none
  else if part == ['.', '.'] then some .up
  else some (.name (String.ofList part))

/-- The components of parts behind a text, each with the text up to its end. -/
def inner (before : List Char) (ps : List (List Char)) : List (Component × List Char) :=
  (ends before ps).filterMap fun entry => (component? false entry.1).map fun c => (c, entry.2)

/-- What the first part of a path stands for, if other parts come after it. -/
def start (part : List Char) (rest : List (List Char)) : List (Component × List Char) :=
  if part = [] ∧ rest ≠ [] then [(.root, ['/'])]
  else ((component? true part).map fun c => (c, part)).toList

theorem isAbsolute_ofParts {part : List Char} (hslash : '/' ∉ part) (rest : List (List Char)) :
    (ofParts (part :: rest)).isAbsolute = decide (part = [] ∧ rest ≠ []) := by
  unfold isAbsolute ofParts
  rw [String.toList_ofList]
  cases part with
  | nil => cases rest <;> simp
  | cons c cs =>
    have hc : c ≠ '/' := fun h => hslash (by simp [h])
    cases rest <;> simp [hc]

theorem marked_ofParts {part : List Char} {rest : List (List Char)}
    (hslash : Slashless (part :: rest)) :
    (ofParts (part :: rest)).marked = start part rest ++ inner (part ++ ['/']) rest := by
  unfold marked
  rw [pieces_text, parts_ofParts hslash nofun, isAbsolute_ofParts (slashless_cons.1 hslash).1]
  have hnamed : ∀ (first : Bool) (piece upTo : List Char),
      (if piece.isEmpty = true then none
        else if (piece == ['.']) = true then if first = true then some (Component.here, upTo) else none
        else if (piece == ['.', '.']) = true then some (Component.up, upTo)
        else some (Component.name (String.ofList piece), upTo)) =
      (component? first piece).map fun c => (c, upTo) := by
    intro first piece upTo
    unfold component?
    cases first <;> split <;> try rfl
    all_goals split <;> try rfl
    all_goals split <;> rfl
  simp only [hnamed, ends, List.nil_append, decide_eq_true_eq]
  unfold start inner
  split
  · next h => simp [h.1]
  · rw [← hnamed true part part]
    simp only

theorem inner_nil (before : List Char) : inner before [] = [] := rfl

theorem inner_cons (before part : List Char) (ps : List (List Char)) :
    inner before (part :: ps) =
      ((component? false part).map fun c => (c, before ++ part)).toList ++
        inner (before ++ part ++ ['/']) ps := by
  unfold inner
  rw [ends, List.filterMap_cons]
  cases component? false part <;> rfl

theorem map_fst_inner (before : List Char) (ps : List (List Char)) :
    (inner before ps).map Prod.fst = ps.filterMap (component? false) := by
  induction ps generalizing before with
  | nil => rfl
  | cons part ps ih =>
    rw [inner_cons, List.map_append, ih, List.filterMap_cons]
    cases component? false part <;> rfl

theorem components_ofParts {part : List Char} {rest : List (List Char)}
    (hslash : Slashless (part :: rest)) :
    (ofParts (part :: rest)).components =
      (start part rest).map Prod.fst ++ rest.filterMap (component? false) := by
  rw [components, marked_ofParts hslash, List.map_append, map_fst_inner]

theorem exists_ofParts (p : Path) :
    ∃ part rest, p = ofParts (part :: rest) ∧ Slashless (part :: rest) := by
  cases hparts : p.parts with
  | nil => exact absurd hparts p.parts_ne_nil
  | cons part rest =>
    refine ⟨part, rest, ?_, ?_⟩
    · rw [← hparts, ofParts_parts]
    · rw [← hparts]
      exact p.slashless_parts

/-- A component behind a slash is what is written there. -/
theorem text_of_component? {part : List Char} {c : Component} (h : component? false part = some c) :
    c.text.toList = part ∧ part ≠ [] ∧ component? true part = some c := by
  unfold component? at h ⊢
  split at h
  · cases h
  · next hempty =>
    have hne : part ≠ [] := by simpa using hempty
    split at h
    · cases h
    · next hdot =>
      split at h
      · next hdots =>
        obtain rfl := Option.some.inj h
        obtain rfl : part = ['.', '.'] := by simpa using hdots
        exact ⟨rfl, nofun, rfl⟩
      · next hdots =>
        obtain rfl := Option.some.inj h
        exact ⟨by simp [Component.text], hne, by simp [hne, hdot, hdots]⟩

/-- Of parts that begin with a component, the components are read off as behind a slash. -/
theorem components_ofParts_of_some {part : List Char} {rest : List (List Char)}
    (hslash : Slashless (part :: rest)) {c : Component} (hc : component? false part = some c) :
    (ofParts (part :: rest)).components = (part :: rest).filterMap (component? false) := by
  obtain ⟨-, hne, hfirst⟩ := text_of_component? hc
  rw [components_ofParts hslash, List.filterMap_cons, hc, start, if_neg (fun h => hne h.1), hfirst]
  rfl

/-! ## Components in their places -/

/-- Where a component stands behind others, the parts are cut in two. -/
theorem inner_split {before u : List Char} {ps : List (List Char)} {l₁ l₂ : List (Component × List Char)}
    {c : Component} (h : inner before ps = l₁ ++ (c, u) :: l₂) :
    ∃ ps₁ part ps₂, ps = ps₁ ++ part :: ps₂ ∧ component? false part = some c ∧
      u = before ++ ps₁.flatMap (· ++ ['/']) ++ part ∧ inner before ps₁ = l₁ ∧
      inner (u ++ ['/']) ps₂ = l₂ := by
  induction ps generalizing before l₁ with
  | nil => simp [inner_nil] at h
  | cons first ps ih =>
    rw [inner_cons] at h
    cases hfirst : component? false first with
    | none =>
      rw [hfirst] at h
      obtain ⟨ps₁, part, ps₂, rfl, hpart, rfl, hl₁, hl₂⟩ := ih h
      exact ⟨first :: ps₁, part, ps₂, rfl, hpart, by simp, by rw [inner_cons, hfirst, hl₁]; rfl, hl₂⟩
    | some d =>
      rw [hfirst] at h
      cases l₁ with
      | nil =>
        obtain ⟨hd, hrest⟩ := List.cons.inj h
        obtain ⟨rfl, rfl⟩ := Prod.mk.inj hd
        exact ⟨[], first, ps, rfl, hfirst, by simp, rfl, by simpa using hrest⟩
      | cons entry l₁ =>
        obtain ⟨rfl, hrest⟩ := List.cons.inj h
        obtain ⟨ps₁, part, ps₂, rfl, hpart, rfl, hl₁, hl₂⟩ := ih hrest
        exact ⟨first :: ps₁, part, ps₂, rfl, hpart, by simp, by rw [inner_cons, hfirst, hl₁]; rfl, hl₂⟩

theorem start_cases (part : List Char) (rest : List (List Char)) :
    start part rest = [] ∨ (part = [] ∧ rest ≠ [] ∧ start part rest = [(.root, ['/'])]) ∨
      ∃ c, component? true part = some c ∧ start part rest = [(c, part)] := by
  unfold start
  split
  · next h => exact .inr (.inl ⟨h.1, h.2, rfl⟩)
  · cases component? true part with
    | none => exact .inl rfl
    | some c => exact .inr (.inr ⟨c, rfl, rfl⟩)

/-- A component that is not the first one stands behind the first part. -/
theorem marked_split {part u : List Char} {rest : List (List Char)} {l₁ l₂ : List (Component × List Char)}
    {c : Component} (h : start part rest ++ inner (part ++ ['/']) rest = l₁ ++ (c, u) :: l₂)
    (hl₁ : start part rest = [] ∨ l₁ ≠ []) :
    ∃ ps₁ piece ps₂, rest = ps₁ ++ piece :: ps₂ ∧ component? false piece = some c ∧
      u = (part :: ps₁).flatMap (· ++ ['/']) ++ piece ∧
      start part rest ++ inner (part ++ ['/']) ps₁ = l₁ ∧ inner (u ++ ['/']) ps₂ = l₂ := by
  have hbehind : ∃ l, l₁ = start part rest ++ l ∧ inner (part ++ ['/']) rest = l ++ (c, u) :: l₂ := by
    have hone : ∀ x, start part rest = [x] →
        ∃ l, l₁ = start part rest ++ l ∧ inner (part ++ ['/']) rest = l ++ (c, u) :: l₂ := by
      intro x hx
      rw [hx] at h hl₁ ⊢
      cases l₁ with
      | nil => simp at hl₁
      | cons y l =>
        obtain ⟨rfl, hrest⟩ := List.cons.inj h
        exact ⟨l, rfl, hrest⟩
    rcases start_cases part rest with hnone | ⟨-, -, hroot⟩ | ⟨d, -, hfirst⟩
    · rw [hnone] at h ⊢
      exact ⟨l₁, rfl, h⟩
    · exact hone _ hroot
    · exact hone _ hfirst
  obtain ⟨l, rfl, hinner⟩ := hbehind
  obtain ⟨ps₁, piece, ps₂, rfl, hpiece, rfl, hl, hl₂⟩ := inner_split hinner
  exact ⟨ps₁, piece, ps₂, rfl, hpiece, by simp, by rw [hl], hl₂⟩

/-- What the first part stands for depends on whether others follow it, if it is empty. -/
theorem start_congr {part : List Char} {rest rest' : List (List Char)}
    (h : part = [] → (rest = [] ↔ rest' = [])) : start part rest = start part rest' := by
  unfold start
  by_cases hpart : part = []
  · simp only [ne_eq, h hpart]
  · simp only [hpart, false_and]

/-- The text up to the end of a component has the components up to it. -/
theorem components_upTo {p : Path} {l₁ l₂ : List (Component × List Char)} {c : Component} {u : List Char}
    (h : p.marked = l₁ ++ (c, u) :: l₂) :
    (⟨String.ofList u⟩ : Path).components = l₁.map Prod.fst ++ [c] := by
  obtain ⟨part, rest, rfl, hslash⟩ := p.exists_ofParts
  rw [marked_ofParts hslash] at h
  by_cases hl₁ : start part rest = [] ∨ l₁ ≠ []
  · obtain ⟨ps₁, piece, ps₂, rfl, hpiece, rfl, rfl, -⟩ := marked_split h hl₁
    have hpath : (⟨String.ofList ((part :: ps₁).flatMap (· ++ ['/']) ++ piece)⟩ : Path) =
        ofParts (part :: (ps₁ ++ [piece])) := by
      rw [ofParts, ← List.cons_append, intercalate_concat]
    have hfront : Slashless (part :: (ps₁ ++ [piece])) := by
      simp only [slashless_cons, slashless_append, slashless_nil, and_true] at hslash ⊢
      exact ⟨hslash.1, hslash.2.1, hslash.2.2.1⟩
    have hstart : start part (ps₁ ++ [piece]) = start part (ps₁ ++ piece :: ps₂) :=
      start_congr (by simp)
    rw [hpath, components_ofParts hfront, hstart, List.map_append, map_fst_inner, List.filterMap_append]
    simp [hpiece]
  · -- the first component ends with the first part, or with the slash before it
    obtain ⟨hstart, rfl⟩ : start part rest ≠ [] ∧ l₁ = [] := by simpa using hl₁
    rcases start_cases part rest with hnone | ⟨-, -, hroot⟩ | ⟨d, hd, hfirst⟩
    · exact absurd hnone hstart
    · rw [hroot] at h
      obtain ⟨hroot, -⟩ := List.cons.inj h
      obtain ⟨rfl, rfl⟩ := Prod.mk.inj hroot
      decide +kernel
    · rw [hfirst] at h
      obtain ⟨hd', -⟩ := List.cons.inj h
      obtain ⟨rfl, rfl⟩ := Prod.mk.inj hd'
      have hpath : (⟨String.ofList part⟩ : Path) = ofParts [part] := by
        rw [ofParts]
        simp
      rw [hpath, components_ofParts (by simpa using (slashless_cons.1 hslash).1), start,
        if_neg (by simp), hd]
      rfl

/-! ## Around a path -/

theorem exists_parent {p : Path} {cs : List Component} {c : Component} (h : p.components = cs ++ [c])
    (hc : c ≠ .root) : ∃ d, p.parent? = some d ∧ d.components = cs := by
  obtain ⟨m, last, hm, hcs, hlast⟩ := List.map_eq_append_iff.1 h
  obtain ⟨entry, rfl, rfl⟩ := List.map_eq_singleton_iff.1 hlast
  obtain ⟨c, u⟩ := entry
  unfold parent?
  rw [hm, List.reverse_append, List.reverse_singleton, List.singleton_append]
  rcases List.eq_nil_or_concat' m with rfl | ⟨before, ⟨d, v⟩, rfl⟩
  · rw [List.map_nil] at hcs
    subst hcs
    refine ⟨⟨""⟩, ?_, rfl⟩
    cases c <;> first | rfl | exact absurd rfl hc
  · rw [List.append_assoc, List.singleton_append] at hm
    refine ⟨⟨String.ofList v⟩, ?_, ?_⟩
    · rw [List.reverse_append, List.reverse_singleton, List.singleton_append]
      cases c <;> first | rfl | exact absurd rfl hc
    · rw [components_upTo hm, ← hcs, List.map_append]
      rfl

/-! ## One path behind another -/

/-- What the parts in front of others stand for does not depend on the others. -/
theorem components_ofParts_append {front qs : List (List Char)} (hfront : front ≠ []) (hqs : qs ≠ [])
    (hslash : Slashless (front ++ qs)) :
    (ofParts (front ++ qs)).components =
      (ofParts (front ++ [[]])).components ++ qs.filterMap (component? false) := by
  obtain ⟨part, rest, rfl⟩ := List.exists_cons_of_ne_nil hfront
  have hslash' : Slashless (part :: (rest ++ [[]])) := by
    simp only [List.cons_append, slashless_cons, slashless_append] at hslash
    simp [hslash]
  have hstart : start part (rest ++ qs) = start part (rest ++ [[]]) := start_congr (by simp [hqs])
  simp only [List.cons_append] at hslash ⊢
  rw [components_ofParts hslash, components_ofParts hslash', hstart]
  simp [component?]

/-- A slash at the end does not change what is in front of it. -/
theorem components_ofParts_concat_nil {front : List (List Char)} (hne : front ≠ []) (hfront : front ≠ [[]])
    (hslash : Slashless front) :
    (ofParts (front ++ [[]])).components = (ofParts front).components := by
  obtain ⟨part, rest, rfl⟩ := List.exists_cons_of_ne_nil hne
  have hslash' : Slashless (part :: (rest ++ [[]])) := by
    simp only [slashless_cons] at hslash
    simp [hslash]
  have hstart : start part (rest ++ [[]]) = start part rest := by
    refine start_congr ?_
    rintro rfl
    have hrest : rest ≠ [] := fun h => hfront (by rw [h])
    simp [hrest]
  simp only [List.cons_append] at hslash ⊢
  rw [components_ofParts hslash, components_ofParts hslash', hstart]
  simp [component?]

/-- A relative path is put behind the parts of a path that is not empty. -/
theorem join_eq_ofParts {base p : Path} (hbase : base.text ≠ "") (hp : p.isAbsolute = false) :
    ∃ front, front ≠ [] ∧ Slashless front ∧ base.join p = ofParts (front ++ p.parts) ∧
      (ofParts (front ++ [[]])).components = base.components := by
  obtain ⟨ps, last, hparts, htext⟩ := base.exists_concat_ofParts
  have hslash : Slashless ps ∧ '/' ∉ last := by
    simpa [hparts] using base.slashless_parts
  have hjoin : ∀ front, (ofParts (front ++ p.parts)).text.toList =
      front.flatMap (· ++ ['/']) ++ p.text.toList := by
    intro front
    rw [ofParts, String.toList_ofList, intercalate_append front p.parts_ne_nil, parts, List.intercalate_splitOn]
  have hpath : ofParts (ps ++ [last]) = base := by
    rw [← hparts, ofParts_parts]
  have hempty : base.text.isEmpty = false := by simpa using hbase
  unfold join
  rw [hp, hempty, Bool.false_or, if_neg (by simp)]
  by_cases hlast : last = []
  · subst hlast
    have hps : ps ≠ [] := by
      rintro rfl
      refine hbase (String.toList_injective ?_)
      rw [htext]
      rfl
    have hslashed : (base.text.toList.getLast? == some '/') = true := by
      rcases List.eq_nil_or_concat' ps with rfl | ⟨before, part, rfl⟩
      · exact absurd rfl hps
      · simp [htext]
    refine ⟨ps, hps, hslash.1, ?_, by rw [hpath]⟩
    rw [if_pos hslashed]
    exact eq_of_toList_eq (by rw [hjoin]; simp [htext])
  · have hslashed : ¬(base.text.toList.getLast? == some '/') = true := by
      rcases List.eq_nil_or_concat' last with rfl | ⟨before, c, rfl⟩
      · exact absurd rfl hlast
      · intro h
        rw [htext, ← List.append_assoc, List.getLast?_concat] at h
        refine hslash.2 ?_
        simp [show c = '/' by simpa using h]
    refine ⟨ps ++ [last], by simp, by simp [hslash], ?_, ?_⟩
    · rw [if_neg hslashed]
      exact eq_of_toList_eq (by rw [hjoin]; simp [htext])
    · rw [components_ofParts_concat_nil (by simp) ?_ (by simp [hslash]), hpath]
      intro h
      exact hlast (by simpa using congrArg List.getLast? h)

/-- Behind a path that is not empty, the parts of a relative path stand for what they stand for behind a
    slash. -/
theorem components_join {base p : Path} (hbase : base.text ≠ "") (hp : p.isAbsolute = false) :
    (base.join p).components = base.components ++ p.parts.filterMap (component? false) := by
  obtain ⟨front, hne, hslash, hjoin, hcomponents⟩ := join_eq_ofParts hbase hp
  rw [hjoin, ← hcomponents]
  exact components_ofParts_append hne p.parts_ne_nil (slashless_append.2 ⟨hslash, p.slashless_parts⟩)

/-- Only a dot is another component in front than behind a slash. -/
theorem component?_eq_of_not_here {part : List Char} (h : component? true part ≠ some .here) :
    component? false part = component? true part := by
  by_cases hdot : part = ['.']
  · rw [hdot] at h
    exact absurd rfl h
  · unfold component?
    simp [hdot]

theorem eq_dot_of_here {part : List Char} (h : component? true part = some .here) : part = ['.'] := by
  unfold component? at h
  split at h
  · cases h
  · split at h
    · next hdot => simpa using hdot
    · split at h <;> cases h

/-- A path all of whose components are names has the components of its parts. -/
theorem filterMap_parts_of_names {p : Path} (h : ∀ c ∈ p.components, ∃ s, c = .name s) :
    p.isAbsolute = false ∧ p.parts.filterMap (component? false) = p.components := by
  obtain ⟨part, rest, rfl, hslash⟩ := p.exists_ofParts
  rw [components_ofParts hslash] at h ⊢
  have hrelative : ¬(part = [] ∧ rest ≠ []) := by
    intro hroot
    obtain ⟨s, hs⟩ := h .root (by simp [start, hroot])
    cases hs
  have hstart : start part rest = ((component? true part).map fun c => (c, part)).toList :=
    if_neg hrelative
  have hfirst : component? true part ≠ some .here := by
    intro hhere
    obtain ⟨s, hs⟩ := h .here (by simp [hstart, hhere])
    cases hs
  refine ⟨?_, ?_⟩
  · rw [isAbsolute_ofParts (slashless_cons.1 hslash).1]
    exact decide_eq_false hrelative
  · rw [parts_ofParts hslash nofun, List.filterMap_cons, component?_eq_of_not_here hfirst, hstart]
    cases component? true part <;> rfl

theorem components_join_of_names {p : Path} (h : ∀ c ∈ p.components, ∃ s, c = .name s) (base : Path) :
    (base.join p).components = base.components ++ p.components := by
  obtain ⟨hrelative, hparts⟩ := filterMap_parts_of_names h
  by_cases hbase : base.text = ""
  · have hjoin : base.join p = p := by
      rw [join, hbase]
      simp
    obtain rfl : base = ⟨""⟩ := by
      cases base
      exact congrArg mk hbase
    rw [hjoin]
    rfl
  · rw [components_join hbase hrelative, hparts]

/-! ## Names -/

/-- A text that stands for a single name wherever it is written between slashes. -/
def IsName (s : String) : Prop := '/' ∉ s.toList ∧ component? false s.toList = some (.name s)

instance (s : String) : Decidable (IsName s) := inferInstanceAs (Decidable (_ ∧ _))

theorem filterMap_names {names : List String} (hnames : ∀ s ∈ names, IsName s) :
    (names.map String.toList).filterMap (component? false) = names.map .name := by
  induction names with
  | nil => rfl
  | cons s names ih =>
    obtain ⟨hs, hnames⟩ := List.forall_mem_cons.1 hnames
    rw [List.map_cons, List.map_cons, List.filterMap_cons, hs.2, ih hnames]

/-- Names with slashes between them. -/
theorem components_intercalate {names : List String} (hnames : ∀ s ∈ names, IsName s) :
    (⟨"/".intercalate names⟩ : Path).components = names.map .name := by
  have hpath : (⟨"/".intercalate names⟩ : Path) = ofParts (names.map String.toList) := by
    refine eq_of_toList_eq ?_
    rw [ofParts, String.toList_ofList, String.toList_intercalate]
    rfl
  have hslash : Slashless (names.map String.toList) := List.forall_mem_map.2 fun s hs => (hnames s hs).1
  have hread := filterMap_names hnames
  rw [hpath]
  cases names with
  | nil => rfl
  | cons s names =>
    rw [List.map_cons] at hslash hread ⊢
    rw [components_ofParts_of_some hslash (hnames s List.mem_cons_self).2, hread]

theorem components_of_isName {s : String} (h : IsName s) : (⟨s⟩ : Path).components = [.name s] := by
  have hone : ∀ t ∈ [s], IsName t := List.forall_mem_singleton.2 h
  exact components_intercalate hone

theorem component?_cases {part : List Char} {c : Component} (h : component? false part = some c) :
    c = .up ∨ ∃ s, c = .name s := by
  unfold component? at h
  split at h
  · cases h
  · split at h
    · cases h
    · split at h
      · exact .inl (Option.some.inj h).symm
      · exact .inr ⟨_, (Option.some.inj h).symm⟩

/-- Behind the first component of a path come two dots and names only. -/
theorem component_cases {p : Path} {c : Component} (h : c ∈ p.components.tail) :
    c = .up ∨ ∃ s, c = .name s := by
  obtain ⟨part, rest, rfl, hslash⟩ := p.exists_ofParts
  rw [components_ofParts hslash] at h
  have hbehind : c ∈ rest.filterMap (component? false) := by
    rcases start_cases part rest with hnone | ⟨-, -, hroot⟩ | ⟨d, -, hfirst⟩
    · rw [hnone] at h
      exact List.mem_of_mem_tail h
    · rwa [hroot] at h
    · rwa [hfirst] at h
  obtain ⟨piece, -, hpiece⟩ := List.mem_filterMap.1 hbehind
  exact component?_cases hpiece

/-- A name in a path can be the name of a file. -/
theorem isName_of_mem {p : Path} {s : String} (h : .name s ∈ p.components) : IsName s := by
  obtain ⟨part, rest, rfl, hslash⟩ := p.exists_ofParts
  have hread : ∀ piece ∈ part :: rest, component? false piece = some (.name s) → IsName s := by
    intro piece hpiece hs
    obtain ⟨htext, -⟩ := text_of_component? hs
    obtain rfl : s.toList = piece := htext
    exact ⟨hslash _ hpiece, hs⟩
  rw [components_ofParts hslash] at h
  rcases List.mem_append.1 h with hfirst | hbehind
  · rcases start_cases part rest with hnone | ⟨-, -, hroot⟩ | ⟨d, hd, hstart⟩
    · simp [hnone] at hfirst
    · simp [hroot] at hfirst
    · obtain rfl : .name s = d := by simpa [hstart] using hfirst
      refine hread part List.mem_cons_self ?_
      rw [component?_eq_of_not_here (by simp [hd]), hd]
  · obtain ⟨piece, hpiece, hs⟩ := List.mem_filterMap.1 hbehind
    exact hread piece (List.mem_cons_of_mem _ hpiece) hs

theorem fileName?_eq_some_iff {p : Path} {s : String} :
    p.fileName? = some s ↔ p.components.getLast? = some (.name s) := by
  unfold fileName?
  split
  · next t hlast => simp [hlast]
  · next hlast =>
    constructor
    · exact nofun
    · exact fun hname => absurd hname (hlast s)

theorem isName_of_fileName? {p : Path} {s : String} (h : p.fileName? = some s) : IsName s :=
  isName_of_mem (List.mem_of_getLast? (fileName?_eq_some_iff.1 h))

theorem fileName?_congr {p q : Path} (h : p.components = q.components) : p.fileName? = q.fileName? := by
  rw [fileName?, fileName?, h]

/-- A path is absolute just when the root is one of its components. -/
theorem isAbsolute_iff {p : Path} : p.isAbsolute = true ↔ .root ∈ p.components := by
  obtain ⟨part, rest, rfl, hslash⟩ := p.exists_ofParts
  rw [isAbsolute_ofParts (slashless_cons.1 hslash).1, components_ofParts hslash, decide_eq_true_iff]
  constructor
  · intro hroot
    rw [start, if_pos hroot]
    exact List.mem_cons_self
  · intro hmem
    by_contra hrelative
    rw [start, if_neg hrelative] at hmem
    rcases List.mem_append.1 hmem with hfirst | hbehind
    · have hroot : component? true part = some .root := by simpa using hfirst
      unfold component? at hroot
      split at hroot
      · cases hroot
      · split at hroot
        · cases hroot
        · split at hroot <;> cases hroot
    · obtain ⟨piece, -, hpiece⟩ := List.mem_filterMap.1 hbehind
      rcases component?_cases hpiece with hup | ⟨s, hs⟩
      · cases hup
      · cases hs

theorem components_withFileName {p : Path} {cs : List Component} {old new : String}
    (h : p.components = cs ++ [.name old]) (hnew : IsName new) :
    (p.withFileName new).components = cs ++ [.name new] := by
  have hname : p.fileName? = some old := by
    rw [fileName?, h, List.getLast?_concat]
  obtain ⟨parent, hparent, rfl⟩ := exists_parent h nofun
  have hnew := components_of_isName hnew
  rw [withFileName, hname, hparent]
  dsimp only
  rw [components_join_of_names (by simp [hnew]), hnew]

/-! ## Paths seen from a directory -/

theorem dropFront_append (as bs : List Component) : dropFront as (as ++ bs) = some bs := by
  induction as with
  | nil => rfl
  | cons a as ih => simpa [dropFront] using ih

theorem eq_append_of_dropFront {as bs cs : List Component} (h : dropFront as bs = some cs) :
    bs = as ++ cs := by
  induction as generalizing bs with
  | nil => exact Option.some.inj h
  | cons a as ih =>
    cases bs with
    | nil => cases h
    | cons b bs =>
      unfold dropFront at h
      split at h
      · next hab => rw [ih h, eq_of_beq hab, List.cons_append]
      · cases h

/-- Of parts that begin with a component, those up to the last component have the same components; the text in
    front of what is behind that one ends with them. -/
theorem exists_upToLast (before : List Char) {piece : List Char} {ps : List (List Char)} {c : Component}
    (hslash : Slashless (piece :: ps)) (hpiece : component? false piece = some c) :
    ∃ qs last, Slashless (piece :: qs) ∧
      (inner before (piece :: ps)).getLast? = some (last, before ++ ['/'].intercalate (piece :: qs)) ∧
      (piece :: qs).filterMap (component? false) = (piece :: ps).filterMap (component? false) := by
  have hne : inner before (piece :: ps) ≠ [] := by
    rw [inner_cons, hpiece]
    exact List.cons_ne_nil _ _
  obtain ⟨l, ⟨last, text⟩, hlast⟩ := (List.eq_nil_or_concat' _).resolve_left hne
  obtain ⟨front, part, behind, hparts, hpart, rfl, hl, -⟩ := inner_split hlast
  obtain ⟨qs, hqs⟩ : ∃ qs, front ++ [part] = piece :: qs := by
    cases front with
    | nil => exact ⟨[], by rw [(List.cons.inj hparts).1]; rfl⟩
    | cons first front => exact ⟨front ++ [part], by rw [(List.cons.inj hparts).1]; rfl⟩
  refine ⟨qs, last, ?_, ?_, ?_⟩
  · rw [← hqs]
    rw [hparts] at hslash
    simp only [slashless_cons, slashless_append] at hslash ⊢
    exact ⟨hslash.1, hslash.2.1, slashless_nil⟩
  · rw [hlast, List.getLast?_concat, ← hqs, intercalate_concat, List.append_assoc]
  · calc (piece :: qs).filterMap (component? false)
        = front.filterMap (component? false) ++ [last] := by
          rw [← hqs, List.filterMap_append]
          simp [hpart]
      _ = (inner before (piece :: ps)).map Prod.fst := by
          rw [hlast, List.map_append, ← hl, map_fst_inner]
          rfl
      _ = (piece :: ps).filterMap (component? false) := map_fst_inner before (piece :: ps)

/-- Seen from a directory around it, a path has the components that are left. -/
theorem exists_relativeTo {p base : Path} {c : Component} {cs : List Component}
    (h : p.components = base.components ++ c :: cs) (hbase : base.components ≠ []) :
    ∃ q, p.relativeTo? base = some q ∧ q.components = c :: cs := by
  have hleft : dropFront base.components p.components = some (c :: cs) := by
    rw [h, dropFront_append]
  obtain ⟨part, rest, rfl, hslash⟩ := p.exists_ofParts
  obtain ⟨l₁, l₂, hmarked, hl₁, hl₂⟩ := List.map_eq_append_iff.1 h
  obtain ⟨⟨d, u⟩, l₂, rfl, hd, hcs⟩ := List.map_eq_cons_iff.1 hl₂
  obtain rfl : d = c := hd
  have hne : l₁ ≠ [] := by
    rintro rfl
    exact hbase hl₁.symm
  have hwhole := marked_ofParts hslash
  rw [hmarked] at hwhole
  obtain ⟨ps₁, piece, ps₂, rfl, hpiece, rfl, -, rfl⟩ := marked_split hwhole.symm (.inr hne)
  generalize hfront : (part :: ps₁).flatMap (· ++ ['/']) = front at *
  -- the text that is left begins with the part of the first component and ends with that of the last one
  have hinner : inner front (piece :: ps₂) =
      (d, front ++ piece) :: inner (front ++ piece ++ ['/']) ps₂ := by
    rw [inner_cons, hpiece]
    rfl
  have hbehind : Slashless (piece :: ps₂) := by
    simp only [slashless_cons, slashless_append] at hslash ⊢
    exact hslash.2.2
  obtain ⟨qs, last, hslash', hend, hcomponents⟩ := exists_upToLast front hbehind hpiece
  have hlength : base.components.length = l₁.length := by
    rw [← hl₁, List.length_map]
  refine ⟨ofParts (piece :: qs), ?_, ?_⟩
  · rw [relativeTo?, hleft]
    dsimp only
    rw [hmarked, ← hinner, List.getLast?_append, hend, hlength, hinner]
    simp [(text_of_component? hpiece).1, ofParts]
  · rw [components_ofParts_of_some hslash' hpiece, hcomponents, ← map_fst_inner front, hinner,
      List.map_cons, hcs]

/-- The first component of a path stands at its beginning. -/
theorem length_of_marked_cons {p : Path} {c : Component} {u : List Char} {l : List (Component × List Char)}
    (h : p.marked = (c, u) :: l) : u.length = c.text.toList.length := by
  obtain ⟨part, rest, rfl, hslash⟩ := p.exists_ofParts
  rw [marked_ofParts hslash] at h
  rcases start_cases part rest with hnone | ⟨-, -, hroot⟩ | ⟨d, hd, hfirst⟩
  · -- a first part that stands for nothing is empty, and so is the path
    unfold start at hnone
    split at hnone
    · cases hnone
    · next hrelative =>
      have hempty : part = [] := by
        by_contra hpart
        unfold component? at hnone
        simp only [List.isEmpty_iff, hpart, if_false] at hnone
        split at hnone
        · cases hnone
        · split at hnone <;> cases hnone
      have hrest : rest = [] := by simpa [hempty] using hrelative
      rw [hempty, hrest] at h
      cases h
  · rw [hroot] at h
    obtain ⟨hroot, -⟩ := List.cons.inj h
    obtain ⟨rfl, rfl⟩ := Prod.mk.inj hroot
    rfl
  · rw [hfirst] at h
    obtain ⟨hfirst, -⟩ := List.cons.inj h
    obtain ⟨rfl, rfl⟩ := Prod.mk.inj hfirst
    by_cases hhere : component? true part = some .here
    · obtain rfl := eq_dot_of_here hhere
      obtain rfl := Option.some.inj (hd.symm.trans hhere)
      rfl
    · rw [← component?_eq_of_not_here hhere] at hd
      rw [(text_of_component? hd).1]

/-- What a path is seen from a directory around it, and the directory, make up its components. -/
theorem components_relativeTo? {p base q : Path} (h : p.relativeTo? base = some q) :
    p.components = base.components ++ q.components := by
  have hseen := h
  unfold relativeTo? at hseen
  dsimp only at hseen
  cases hleft : dropFront base.components p.components with
  | none => simp [hleft] at hseen
  | some cs =>
    have hcs := eq_append_of_dropFront hleft
    rw [hleft] at hseen
    cases cs with
    | nil =>
      obtain rfl := Option.some.inj hseen
      exact hcs
    | cons c cs =>
      by_cases hbase : base.components = []
      · -- seen from nowhere, a path is the text up to the end of its last component
        rw [hbase] at hseen hcs
        obtain ⟨⟨d, u⟩, l, hmarked, hd, -⟩ := List.map_eq_cons_iff.1 hcs
        obtain rfl : d = c := hd
        obtain ⟨front, ⟨last, v⟩, hlast⟩ :=
          (List.eq_nil_or_concat' p.marked).resolve_left (by simp [hmarked])
        have hq : q = ⟨String.ofList v⟩ := by
          rw [hlast, List.getLast?_concat, ← hlast, hmarked] at hseen
          simpa [length_of_marked_cons hmarked] using hseen.symm
        rw [hq, components_upTo hlast, hbase, components, hlast]
        simp
      · obtain ⟨q', hq', hcomponents⟩ := exists_relativeTo hcs hbase
        rw [h] at hq'
        obtain rfl := Option.some.inj hq'
        rw [hcs, hcomponents]

end Stencil.Path
