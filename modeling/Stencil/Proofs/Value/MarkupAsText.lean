import Stencil.Proofs.Value.Coherence
import Stencil.Proofs.Value.Markup
/-
  Markup compared as text.

  Markup is text that is not escaped, and only escaping should tell the two apart.  Here all markup in two
  values is made text, at any depth, and they are compared again.

  The order does not change, since it reads numbers and shows texts the same way for both.  The
  equalities do in two cases: markup that is written as a number is not taken for one by loose equality,
  as text is; and inside of lists and maps strict equality tells markup from text, as it does not at the top.

  The main statement is that nothing else changes.
-/

namespace Stencil.Value

mutual

/-- A value with all markup in it made text. -/
def asText : Value → Value
  | .null => .null
  | .bool b => .bool b
  | .int n => .int n
  | .float x => .float x
  | .text s => .text s
  | .html s => .text s
  | .list items => .list (itemsAsText items)
  | .map entries => .map (entriesAsText entries)

/-- Items with all markup in them made text. -/
def itemsAsText : List Value → List Value
  | [] => []
  | item :: items => asText item :: itemsAsText items

/-- Entries with all markup in their values made text. -/
def entriesAsText : List (String × Value) → List (String × Value)
  | [] => []
  | (key, value) :: entries => (key, asText value) :: entriesAsText entries

end

mutual

/-- The values without parts that a value is made of. -/
def leaves : Value → List Value
  | .list items => leavesOfItems items
  | .map entries => leavesOfEntries entries
  | v => [v]

/-- The values without parts that items are made of. -/
def leavesOfItems : List Value → List Value
  | [] => []
  | item :: items => leaves item ++ leavesOfItems items

/-- The values without parts that entries are made of, their keys aside. -/
def leavesOfEntries : List (String × Value) → List Value
  | [] => []
  | (_, value) :: entries => leaves value ++ leavesOfEntries entries

end

/-! ## What is not changed -/

theorem isEmpty_itemsAsText (items : List Value) : (itemsAsText items).isEmpty = items.isEmpty := by
  cases items <;> rfl

theorem isEmpty_entriesAsText (entries : List (String × Value)) :
    (entriesAsText entries).isEmpty = entries.isEmpty := by
  cases entries <;> rfl

theorem length_entriesAsText (entries : List (String × Value)) :
    (entriesAsText entries).length = entries.length := by
  induction entries with
  | nil => rfl
  | cons entry entries ih => exact congrArg (· + 1) ih

theorem get?_entriesAsText (entries : List (String × Value)) (key : String) :
    Ordered.get? (entriesAsText entries) key = (Ordered.get? entries key).map asText := by
  induction entries with
  | nil => rfl
  | cons entry entries ih =>
    obtain ⟨k, v⟩ := entry
    rw [entriesAsText, Ordered.get?, Ordered.get?, ih]
    split <;> rfl

/-- Lists correspond after their markup was made text as they did before, if their items do. -/
theorem forall₂_itemsAsText {R S : Value → Value → Prop} {xs ys : List Value}
    (h : ∀ x ∈ xs, ∀ y ∈ ys, (R x.asText y.asText ↔ S x y)) :
    List.Forall₂ R (itemsAsText xs) (itemsAsText ys) ↔ List.Forall₂ S xs ys := by
  induction xs generalizing ys with
  | nil => cases ys <;> simp [itemsAsText]
  | cons x xs ih =>
    cases ys with
    | nil => simp [itemsAsText]
    | cons y ys =>
      have hrest := ih fun x' hx' y' hy' => h x' (List.mem_cons_of_mem _ hx') y' (List.mem_cons_of_mem _ hy')
      rw [itemsAsText, itemsAsText, List.forall₂_cons, List.forall₂_cons, hrest,
        h x List.mem_cons_self y List.mem_cons_self]

/-- Maps correspond after their markup was made text as they did before, if their entries do. -/
theorem foundIn_entriesAsText {R S : Value → Value → Prop} {xs ys : List (String × Value)}
    (h : ∀ entry ∈ xs, ∀ w, (entry.1, w) ∈ ys → (R entry.2.asText w.asText ↔ S entry.2 w)) :
    Ordered.FoundIn R (entriesAsText xs) (entriesAsText ys) ↔ Ordered.FoundIn S xs ys := by
  induction xs with
  | nil => exact ⟨fun _ entry h => absurd h List.not_mem_nil, fun _ entry h => absurd h List.not_mem_nil⟩
  | cons entry xs ih =>
    obtain ⟨key, x⟩ := entry
    obtain ⟨hx, hxs⟩ := List.forall_mem_cons.1 h
    rw [entriesAsText, Ordered.foundIn_cons, Ordered.foundIn_cons, ih hxs, get?_entriesAsText]
    cases hget : Ordered.get? ys key with
    | none => simp
    | some y => simp [hx y (Ordered.mem_of_get?_eq_some hget)]

theorem truthy_asText (v : Value) : v.asText.truthy = v.truthy := by
  cases v with
  | list items => exact congrArg not (isEmpty_itemsAsText items)
  | map entries => exact congrArg not (isEmpty_entriesAsText entries)
  | _ => rfl

theorem number?_asText (v : Value) : v.asText.number? = v.number? := by
  cases v <;> rfl

theorem itemsToJson_asText {items : List Value} (h : ∀ v ∈ items, v.asText.toJson = v.toJson) :
    itemsToJson (itemsAsText items) = itemsToJson items := by
  induction items with
  | nil => rfl
  | cons item items ih =>
    obtain ⟨hitem, hitems⟩ := List.forall_mem_cons.1 h
    rw [itemsAsText, itemsToJson, itemsToJson, hitem, ih hitems]

theorem entriesToJson_asText {entries : List (String × Value)}
    (h : ∀ entry ∈ entries, entry.2.asText.toJson = entry.2.toJson) :
    entriesToJson (entriesAsText entries) = entriesToJson entries := by
  induction entries with
  | nil => rfl
  | cons entry entries ih =>
    obtain ⟨hentry, hentries⟩ := List.forall_mem_cons.1 h
    rw [entriesAsText, entriesToJson, entriesToJson, hentry, ih hentries]

/-- Markup is text in structured data already. -/
theorem toJson_asText (v : Value) : v.asText.toJson = v.toJson := by
  induction v using inductionOnParts with
  | list items ih => exact congrArg Json.array (itemsToJson_asText ih)
  | map entries ih => exact congrArg Json.object (entriesToJson_asText ih)
  | _ => rfl

theorem display_asText (v : Value) : v.asText.display = v.display := by
  cases v with
  | list items => exact congrArg Json.line (toJson_asText (.list items))
  | map entries => exact congrArg Json.line (toJson_asText (.map entries))
  | _ => rfl

/-- The order of two values does not tell markup from text. -/
theorem order_asText (a b : Value) : a.asText.order b.asText = a.order b := by
  simp only [order, number?_asText, display_asText]

/-! ## Loose equality -/

/-- No markup in a value is written as a number. -/
def WithoutNumbersAsMarkup (v : Value) : Prop := v.AllMarkup fun markup => Number.ofText? markup = none

theorem isNumeric_asText {v : Value} (h : v.WithoutNumbersAsMarkup) : v.asText.isNumeric = v.isNumeric := by
  cases h with
  | html hmarkup => exact congrArg Option.isSome hmarkup
  | _ => rfl

theorem scalarEquals_asText {a b : Value} (ha : a.WithoutNumbersAsMarkup)
    (hb : b.WithoutNumbersAsMarkup) : scalarEquals a.asText b.asText = scalarEquals a b := by
  simp only [scalarEquals, isNumeric_asText ha, isNumeric_asText hb, order_asText, display_asText]

theorem looselyEqual_bool (x : Bool) (b : Value) : (Value.bool x).looselyEqual b = (x == b.truthy) := by
  cases b <;> rfl

/-- Where no markup is written as a number, loose equality does not tell markup from text. -/
theorem looselyEqual_asText {a b : Value} (ha : a.WithoutNumbersAsMarkup) (hb : b.WithoutNumbersAsMarkup) :
    a.asText.looselyEqual b.asText = a.looselyEqual b := by
  induction a using inductionOnParts generalizing b with
  | null =>
    cases b with
    | list ys => exact congrArg not (truthy_asText (.list ys))
    | map ys => exact congrArg not (truthy_asText (.map ys))
    | _ => rfl
  | bool x => rw [asText, looselyEqual_bool, looselyEqual_bool, truthy_asText]
  | int | float | text | html =>
    cases b with
    | null | bool | list | map => rfl
    | int | float | text | html =>
      rw [looselyEqual_of_isScalar rfl rfl, looselyEqual_of_isScalar rfl rfl, scalarEquals_asText ha hb]
  | list xs ih =>
    cases b with
    | null => exact congrArg not (truthy_asText (.list xs))
    | bool y => exact congrArg (y == ·) (truthy_asText (.list xs))
    | list ys =>
      cases ha with
      | list hxs =>
        cases hb with
        | list hys =>
          show looseItems (itemsAsText xs) (itemsAsText ys) = looseItems xs ys
          rw [Bool.eq_iff_iff, looseItems_iff, looseItems_iff]
          exact forall₂_itemsAsText fun x hx y hy => Bool.eq_iff_iff.1 (ih x hx (hxs x hx) (hys y hy))
    | _ => rfl
  | map xs ih =>
    cases b with
    | null => exact congrArg not (truthy_asText (.map xs))
    | bool y => exact congrArg (y == ·) (truthy_asText (.map xs))
    | map ys =>
      cases ha with
      | map hxs =>
        cases hb with
        | map hys =>
          rw [asText, asText, Bool.eq_iff_iff, looselyEqual_map_iff, looselyEqual_map_iff,
            length_entriesAsText, length_entriesAsText]
          refine and_congr_right fun _ => foundIn_entriesAsText fun entry hentry w hw => ?_
          exact Bool.eq_iff_iff.1 (ih entry hentry (hxs entry hentry) (hys _ hw))
    | _ => rfl

/-! ## Strict equality -/

theorem leavesOfItems_subset {items : List Value} {v : Value} (h : v ∈ items) :
    v.leaves ⊆ leavesOfItems items := by
  induction items with
  | nil => cases h
  | cons item items ih =>
    intro leaf hleaf
    rw [leavesOfItems, List.mem_append]
    rcases List.mem_cons.1 h with rfl | h
    · exact .inl hleaf
    · exact .inr (ih h hleaf)

theorem leavesOfEntries_subset {entries : List (String × Value)} {entry : String × Value}
    (h : entry ∈ entries) : entry.2.leaves ⊆ leavesOfEntries entries := by
  induction entries with
  | nil => cases h
  | cons first entries ih =>
    intro leaf hleaf
    rw [leavesOfEntries, List.mem_append]
    rcases List.mem_cons.1 h with rfl | h
    · exact .inl hleaf
    · exact .inr (ih h hleaf)

/-- No string is markup among the first values and text among the second, or the other way round. -/
def Unmixed (xs ys : List Value) : Prop :=
  ∀ s, ¬ (.html s ∈ xs ∧ .text s ∈ ys) ∧ ¬ (.text s ∈ xs ∧ .html s ∈ ys)

theorem Unmixed.mono {xs ys xs' ys' : List Value} (h : Unmixed xs ys) (hxs : xs' ⊆ xs) (hys : ys' ⊆ ys) :
    Unmixed xs' ys' :=
  fun s => ⟨fun hs => (h s).1 ⟨hxs hs.1, hys hs.2⟩, fun hs => (h s).2 ⟨hxs hs.1, hys hs.2⟩⟩

/-- Where no string is markup in one value and text in the other, equality of kind and value does not tell
    markup from text. -/
theorem same_asText {a b : Value} (h : Unmixed a.leaves b.leaves) : same a.asText b.asText = same a b := by
  induction a using inductionOnParts generalizing b with
  | text s =>
    cases b with
    | html t =>
      have hne : s ≠ t := by
        rintro rfl
        exact (h s).2 ⟨List.mem_singleton_self _, List.mem_singleton_self _⟩
      exact beq_eq_false_iff_ne.2 hne
    | _ => rfl
  | html s =>
    cases b with
    | text t =>
      have hne : s ≠ t := by
        rintro rfl
        exact (h s).1 ⟨List.mem_singleton_self _, List.mem_singleton_self _⟩
      exact beq_eq_false_iff_ne.2 hne
    | _ => rfl
  | list xs ih =>
    cases b with
    | list ys =>
      show sameItems (itemsAsText xs) (itemsAsText ys) = sameItems xs ys
      rw [Bool.eq_iff_iff, sameItems_iff, sameItems_iff]
      exact forall₂_itemsAsText fun x hx y hy =>
        Bool.eq_iff_iff.1 (ih x hx (h.mono (leavesOfItems_subset hx) (leavesOfItems_subset hy)))
    | _ => rfl
  | map xs ih =>
    cases b with
    | map ys =>
      rw [asText, asText, Bool.eq_iff_iff, same_map_iff, same_map_iff, length_entriesAsText,
        length_entriesAsText]
      refine and_congr_right fun _ => foundIn_entriesAsText fun entry hentry w hw => ?_
      exact Bool.eq_iff_iff.1
        (ih entry hentry (h.mono (leavesOfEntries_subset hentry) (leavesOfEntries_subset hw)))
    | _ => rfl
  | _ => cases b <;> rfl

/-- The values without parts inside of a list or a map. -/
def inner : Value → List Value
  | .list items => leavesOfItems items
  | .map entries => leavesOfEntries entries
  | _ => []

/-- At the top strict equality does not tell markup from text; inside of lists and maps it does not where no
    string is markup in one value and text in the other. -/
theorem strictlyEqual_asText {a b : Value} (h : Unmixed a.inner b.inner) :
    a.asText.strictlyEqual b.asText = a.strictlyEqual b := by
  cases a with
  | list xs =>
    cases b with
    | list | map => exact same_asText h
    | _ => rfl
  | map xs =>
    cases b with
    | list | map => exact same_asText h
    | _ => rfl
  | _ => cases b <;> rfl

/-! ## The comparisons together -/

/-- Values in which all markup is made text have the same order.  They are loosely equal to the same values
    unless markup is written as a number, and strictly equal to the same values unless a string stands
    inside of one as markup and inside of the other as text. -/
theorem comparisons_asText (a b : Value) :
    a.asText.order b.asText = a.order b ∧
    (a.WithoutNumbersAsMarkup → b.WithoutNumbersAsMarkup →
      a.asText.looselyEqual b.asText = a.looselyEqual b) ∧
    (Unmixed a.inner b.inner → a.asText.strictlyEqual b.asText = a.strictlyEqual b) :=
  ⟨order_asText a b, looselyEqual_asText, strictlyEqual_asText⟩

/-- Two lists that hold the same markup, and a number as text and as a number. -/
theorem comparisons_asText_list :
    (Value.list [.html "<b>", .text "1.0"]).asText.looselyEqual (Value.list [.html "<b>", .int 1]).asText =
      true ∧
    (Value.list [.html "<b>", .text "1.0"]).asText.strictlyEqual (Value.list [.html "<b>", .int 1]).asText =
      false := by
  obtain ⟨-, hloose, hstrict⟩ :=
    comparisons_asText (.list [.html "<b>", .text "1.0"]) (.list [.html "<b>", .int 1])
  have hmarkup : Number.ofText? "<b>" = none := rfl
  have ha : (Value.list [.html "<b>", .text "1.0"]).WithoutNumbersAsMarkup :=
    .list (List.forall_mem_cons.2 ⟨.html hmarkup, List.forall_mem_singleton.2 .text⟩)
  have hb : (Value.list [.html "<b>", .int 1]).WithoutNumbersAsMarkup :=
    .list (List.forall_mem_cons.2 ⟨.html hmarkup, List.forall_mem_singleton.2 .int⟩)
  have hunmixed : Unmixed [.html "<b>", .text "1.0"] [.html "<b>", .int 1] := by
    intro s
    constructor
    · rintro ⟨-, htext⟩
      simp at htext
    · rintro ⟨htext, hhtml⟩
      obtain rfl : s = "1.0" := by simpa using htext
      simp at hhtml
  exact ⟨(hloose ha hb).trans rfl, (hstrict hunmixed).trans rfl⟩

/-- Markup that is written as a number is neither above nor below that number, and yet not loosely equal to
    it, as the same text is; and lists of the same string as markup and as text are not strictly equal, as
    lists of the same text are. -/
theorem comparisons_tell_markup :
    (Value.html "1.0").order (.int 1) = .eq ∧
    (Value.html "1.0").looselyEqual (.int 1) = false ∧
    (Value.html "1.0").asText.looselyEqual (Value.int 1).asText = true ∧
    (Value.list [.html "a"]).strictlyEqual (.list [.text "a"]) = false ∧
    (Value.list [.html "a"]).asText.strictlyEqual (Value.list [.text "a"]).asText = true :=
  ⟨rfl, rfl, rfl, rfl, rfl⟩

end Stencil.Value
