import Stencil.Expression.Eval
import Stencil.Proofs.Value.Proper
import Mathlib.Data.List.Forall2
/-
  The comparisons of values agree with each other.

  Loose equality tries its cases one after the other, and each case names the two sides in one order or in
  both; the order looks at the numeric readings of both sides, and at the texts they are shown as where one
  has none.

  The main statement is that on proper values, nested to any depth, loose equality is reflexive and
  symmetric and holds wherever strict equality does, and that values which change sides change nothing but
  the direction of their order.  A floating-point number that is not a number is no exception: it is neither
  below nor above anything, so in the order it counts as equal to every number.
-/

namespace Stencil.Value

/-! ## The order -/

/-- Values that change sides have the reverse order. -/
theorem order_swap (a b : Value) : b.order a = (a.order b).swap := by
  have htexts : compare b.display a.display = (compare a.display b.display).swap :=
    Std.OrientedOrd.eq_swap
  have hfloats : ∀ x y : Float,
      (Binary64.order y x).getD .eq = ((Binary64.order x y).getD .eq).swap := by
    intro x y
    rw [Binary64.order_swap]
    cases Binary64.order x y <;> rfl
  unfold order
  rcases a.number? with _ | ⟨m | x⟩
  · rcases b.number? with _ | ⟨n | y⟩ <;> exact htexts
  · rcases b.number? with _ | ⟨n | y⟩
    · exact htexts
    · exact Std.OrientedOrd.eq_swap
    · exact hfloats _ y
  · rcases b.number? with _ | ⟨n | y⟩
    · exact htexts
    · exact hfloats x _
    · exact hfloats x y

theorem order_self (a : Value) : a.order a = .eq := by
  have hswap := order_swap a a
  cases h : a.order a with
  | eq => rfl
  | lt => rw [h] at hswap; cases hswap
  | gt => rw [h] at hswap; cases hswap

theorem beq_eq_swap (o : Ordering) : (o.swap == .eq) = (o == .eq) := by
  cases o <;> rfl

/-! ## Values that are not compared part by part -/

/-- Whether a value is a number, a text or markup. -/
def isScalar : Value → Bool
  | .int _ | .float _ | .text _ | .html _ => true
  | _ => false

theorem looselyEqual_of_isScalar {a b : Value} (ha : a.isScalar = true) (hb : b.isScalar = true) :
    a.looselyEqual b = scalarEquals a b := by
  cases a with
  | null | bool | list | map => cases ha
  | int | float | text | html =>
    cases b with
    | null | bool | list | map => cases hb
    | int | float | text | html => rfl

theorem scalarEquals_self (a : Value) : scalarEquals a a = true := by
  unfold scalarEquals
  split
  · rw [order_self]
    rfl
  · exact beq_self_eq_true _

theorem scalarEquals_comm (a b : Value) : scalarEquals a b = scalarEquals b a := by
  unfold scalarEquals
  rw [order_swap a b, beq_eq_swap, Bool.and_comm, BEq.comm (a := a.display)]

/-- Values that are not both lists or both maps may change sides: every case is there both ways. -/
theorem looselyEqual_comm_of_not_parts {a b : Value}
    (hlists : ∀ xs ys, ¬ (a = .list xs ∧ b = .list ys))
    (hmaps : ∀ xs ys, ¬ (a = .map xs ∧ b = .map ys)) : a.looselyEqual b = b.looselyEqual a := by
  cases a with
  | null => cases b <;> rfl
  | bool x =>
    cases b with
    | bool y => exact BEq.comm
    | _ => rfl
  | list xs =>
    cases b with
    | list ys => exact absurd ⟨rfl, rfl⟩ (hlists xs ys)
    | _ => rfl
  | map xs =>
    cases b with
    | map ys => exact absurd ⟨rfl, rfl⟩ (hmaps xs ys)
    | _ => rfl
  | int | float | text | html =>
    cases b with
    | null | bool | list | map => rfl
    | int | float | text | html =>
      rw [looselyEqual_of_isScalar rfl rfl, looselyEqual_of_isScalar rfl rfl, scalarEquals_comm]

/-! ## Lists and maps -/

theorem forall₂_of_mem {α β : Type} {R S : α → β → Prop} {xs : List α} {ys : List β}
    (hRS : ∀ x ∈ xs, ∀ y ∈ ys, R x y → S x y) (h : List.Forall₂ R xs ys) : List.Forall₂ S xs ys := by
  induction h with
  | nil => exact .nil
  | cons hxy _ ih =>
    refine .cons (hRS _ List.mem_cons_self _ List.mem_cons_self hxy) (ih fun x hx y hy => ?_)
    exact hRS x (List.mem_cons_of_mem _ hx) y (List.mem_cons_of_mem _ hy)

theorem looseItems_iff {xs ys : List Value} :
    looseItems xs ys = true ↔ List.Forall₂ (fun x y => x.looselyEqual y = true) xs ys := by
  induction xs generalizing ys with
  | nil => cases ys <;> simp [looseItems]
  | cons x xs ih =>
    cases ys with
    | nil => simp [looseItems]
    | cons y ys => rw [looseItems, Bool.and_eq_true, ih, List.forall₂_cons]

theorem sameItems_iff {xs ys : List Value} :
    sameItems xs ys = true ↔ List.Forall₂ (fun x y => same x y = true) xs ys := by
  induction xs generalizing ys with
  | nil => cases ys <;> simp [sameItems]
  | cons x xs ih =>
    cases ys with
    | nil => simp [sameItems]
    | cons y ys => rw [sameItems, Bool.and_eq_true, ih, List.forall₂_cons]

theorem looseEntries_iff {xs ys : List (String × Value)} :
    looseEntries xs ys = true ↔ Ordered.FoundIn (fun v w => v.looselyEqual w = true) xs ys := by
  induction xs with
  | nil => exact ⟨fun _ entry h => absurd h List.not_mem_nil, fun _ => rfl⟩
  | cons entry xs ih =>
    obtain ⟨key, x⟩ := entry
    rw [looseEntries, Bool.and_eq_true, ih, Ordered.foundIn_cons]
    cases Ordered.get? ys key <;> simp

theorem sameEntries_iff {xs ys : List (String × Value)} :
    sameEntries xs ys = true ↔ Ordered.FoundIn (fun v w => same v w = true) xs ys := by
  induction xs with
  | nil => exact ⟨fun _ entry h => absurd h List.not_mem_nil, fun _ => rfl⟩
  | cons entry xs ih =>
    obtain ⟨key, x⟩ := entry
    rw [sameEntries, Bool.and_eq_true, ih, Ordered.foundIn_cons]
    cases Ordered.get? ys key <;> simp

/-- Two maps are loosely equal when they have as many entries, and each of one finds its like in the
    other. -/
theorem looselyEqual_map_iff {xs ys : List (String × Value)} :
    (Value.map xs).looselyEqual (.map ys) = true ↔
      xs.length = ys.length ∧ Ordered.FoundIn (fun v w => v.looselyEqual w = true) xs ys := by
  rw [looselyEqual, Bool.and_eq_true, beq_iff_eq, looseEntries_iff]

/-- So it is for equality of kind and value. -/
theorem same_map_iff {xs ys : List (String × Value)} :
    same (.map xs) (.map ys) = true ↔
      xs.length = ys.length ∧ Ordered.FoundIn (fun v w => same v w = true) xs ys := by
  rw [same, Bool.and_eq_true, beq_iff_eq, sameEntries_iff]

/-! ## Reflexive and symmetric -/

theorem looselyEqual_self {a : Value} (ha : a.Proper) : a.looselyEqual a = true := by
  induction ha with
  | null => rfl
  | bool => exact beq_self_eq_true _
  | int | float | text | html =>
    rw [looselyEqual_of_isScalar rfl rfl]
    exact scalarEquals_self _
  | list _ ih => exact looseItems_iff.2 (List.forall₂_same.2 ih)
  | map hkeys _ ih =>
    exact looselyEqual_map_iff.2 ⟨rfl, fun entry hentry =>
      ⟨entry.2, Ordered.get?_of_mem hkeys hentry, ih entry hentry⟩⟩

theorem looselyEqual_comm {a b : Value} (ha : a.Proper) (hb : b.Proper) :
    a.looselyEqual b = b.looselyEqual a := by
  induction ha generalizing b with
  | @list xs _ ih =>
    cases hb with
    | @list ys hys =>
      have hparts : ∀ x ∈ xs, ∀ y ∈ ys, x.looselyEqual y = y.looselyEqual x :=
        fun x hx y hy => ih x hx (hys y hy)
      show looseItems xs ys = looseItems ys xs
      rw [Bool.eq_iff_iff, looseItems_iff, looseItems_iff]
      constructor
      · intro h
        exact (forall₂_of_mem (fun x hx y hy hxy => (hparts x hx y hy).symm.trans hxy) h).flip
      · intro h
        exact forall₂_of_mem (fun x hx y hy hyx => (hparts x hx y hy).trans hyx) h.flip
    | _ => exact looselyEqual_comm_of_not_parts (by simp) (by simp)
  | @map xs hkeysX _ ih =>
    cases hb with
    | @map ys hkeysY hys =>
      have hparts : ∀ entry ∈ xs, ∀ w, (entry.1, w) ∈ ys →
          entry.2.looselyEqual w = w.looselyEqual entry.2 :=
        fun entry hentry w hw => ih entry hentry (hys _ hw)
      rw [Bool.eq_iff_iff, looselyEqual_map_iff, looselyEqual_map_iff]
      constructor
      · rintro ⟨hlength, hfound⟩
        have hturned : Ordered.FoundIn (fun v w => w.looselyEqual v = true) xs ys :=
          hfound.mono fun entry hentry w hw h => hparts entry hentry w hw ▸ h
        exact ⟨hlength.symm, hturned.flip hkeysX hkeysY hlength⟩
      · rintro ⟨hlength, hfound⟩
        have hturned := hfound.flip hkeysY hkeysX hlength
        exact ⟨hlength.symm, hturned.mono fun entry hentry w hw h => (hparts entry hentry w hw).trans h⟩
    | _ => exact looselyEqual_comm_of_not_parts (by simp) (by simp)
  | _ => exact looselyEqual_comm_of_not_parts (by simp) (by simp)

/-! ## Strict and loose equality -/

theorem scalarEquals_of_display {a b : Value} (hnumeric : a.isNumeric = false ∨ b.isNumeric = false)
    (h : a.display = b.display) : scalarEquals a b = true := by
  have hcondition : (a.isNumeric && b.isNumeric) = false := Bool.and_eq_false_iff.2 hnumeric
  rw [scalarEquals, hcondition, h]
  exact beq_self_eq_true _

/-- Values of the same kind that are the same are loosely equal. -/
theorem looselyEqual_of_same {a b : Value} (h : same a b = true) : a.looselyEqual b = true := by
  induction a using inductionOnParts generalizing b with
  | null =>
    cases b with
    | null => rfl
    | _ => cases h
  | bool x =>
    cases b with
    | bool y => exact h
    | _ => cases h
  | int m =>
    cases b with
    | int n =>
      obtain rfl : m = n := eq_of_beq h
      exact scalarEquals_self _
    | _ => cases h
  | float x =>
    cases b with
    | float y =>
      have horder : Binary64.order x y = some .eq := eq_of_beq h
      show ((Binary64.order x y).getD .eq == .eq) = true
      rw [horder]
      rfl
    | _ => cases h
  | text s =>
    cases b with
    | text t =>
      obtain rfl : s = t := eq_of_beq h
      exact scalarEquals_self _
    | _ => cases h
  | html s =>
    cases b with
    | html t =>
      obtain rfl : s = t := eq_of_beq h
      exact scalarEquals_self _
    | _ => cases h
  | list xs ih =>
    cases b with
    | list ys => exact looseItems_iff.2 (forall₂_of_mem (fun x hx y _ => ih x hx) (sameItems_iff.1 h))
    | _ => cases h
  | map xs ih =>
    cases b with
    | map ys =>
      obtain ⟨hlength, hfound⟩ := same_map_iff.1 h
      exact looselyEqual_map_iff.2 ⟨hlength, hfound.mono fun entry hentry w _ => ih entry hentry⟩
    | _ => cases h

/-- What is strictly equal is loosely equal. -/
theorem looselyEqual_of_strictlyEqual {a b : Value} (h : a.strictlyEqual b = true) :
    a.looselyEqual b = true := by
  unfold strictlyEqual at h
  split at h
  -- text and markup: the markup is not read as a number, so the two are compared as they are shown
  · exact scalarEquals_of_display (.inr rfl) (eq_of_beq h)
  · exact scalarEquals_of_display (.inl rfl) (eq_of_beq h)
  · exact looselyEqual_of_same h

/-! ## The comparisons together -/

/-- Loose equality is reflexive and symmetric, and holds wherever strict equality does; values that change
    sides have the reverse order.  So one value is below another just when that one is above it, and at most
    as high just when it is not above it. -/
theorem comparisons_coherent {a b : Value} (ha : a.Proper) (hb : b.Proper) :
    a.looselyEqual a = true ∧
    a.looselyEqual b = b.looselyEqual a ∧
    (a.strictlyEqual b = true → a.looselyEqual b = true) ∧
    b.order a = (a.order b).swap ∧
    BinaryOp.less.apply a b = BinaryOp.greater.apply b a ∧
    (BinaryOp.lessEqual.apply a b = .ok (.bool true) ↔
      BinaryOp.greater.apply a b = .ok (.bool false)) := by
  refine ⟨looselyEqual_self ha, looselyEqual_comm ha hb, looselyEqual_of_strictlyEqual, order_swap a b,
    ?_, ?_⟩
  · rw [BinaryOp.apply, BinaryOp.apply, order_swap a b]
    cases a.order b <;> rfl
  · rw [BinaryOp.apply, BinaryOp.apply]
    cases a.order b <;> simp [Ordering.isLE, Ordering.isGT]

/-- Two maps with their keys in different orders: what is not a number next to a number, a number next to
    text, and nothing next to empty markup. -/
theorem comparisons_coherent_maps :
    (Value.map [("x", .float (0.0 / 0.0)), ("y", .list [.text "1.0", .null])]).looselyEqual
      (.map [("y", .list [.int 1, .html ""]), ("x", .text "2")]) = true ∧
    (Value.map [("y", .list [.int 1, .html ""]), ("x", .text "2")]).looselyEqual
      (.map [("x", .float (0.0 / 0.0)), ("y", .list [.text "1.0", .null])]) = true := by
  have ha : (Value.map [("x", .float (0.0 / 0.0)), ("y", .list [.text "1.0", .null])]).Proper :=
    .map (by decide) (List.forall_mem_cons.2 ⟨.float, List.forall_mem_singleton.2
      (.list (List.forall_mem_cons.2 ⟨.text, List.forall_mem_singleton.2 .null⟩))⟩)
  have hb : (Value.map [("y", .list [.int 1, .html ""]), ("x", .text "2")]).Proper :=
    .map (by decide) (List.forall_mem_cons.2 ⟨.list (List.forall_mem_cons.2
      ⟨.int, List.forall_mem_singleton.2 .html⟩), List.forall_mem_singleton.2 .text⟩)
  obtain ⟨-, hcomm, -⟩ := comparisons_coherent ha hb
  have hequal : (Value.map [("x", .float (0.0 / 0.0)), ("y", .list [.text "1.0", .null])]).looselyEqual
      (.map [("y", .list [.int 1, .html ""]), ("x", .text "2")]) = true := by decide +kernel
  exact ⟨hequal, hcomm.symm.trans hequal⟩

end Stencil.Value
