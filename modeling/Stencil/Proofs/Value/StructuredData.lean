import Stencil.Value.Display
import Stencil.Proofs.Value.Proper
/-
  Values and structured data, there and back.

  Values become structured data in order to be shown, and structured data becomes values when it is read.
  Each side has something that the other has not: data knows no markup and no number that is
  infinite or not a number, and values know no whole number beyond 64 bits and no name twice in one map.

  The main statement is that nothing else gets lost.  A value comes back with its markup made text and the
  numbers that data lacks made null, at every depth, and is the same in all else: the order of lists and
  maps, the keys, and which numbers are whole.  Data within the reach of values comes back as it was.
-/

namespace Stencil

/-! ## Maps without a key twice -/

namespace Ordered

variable {α : Type}

theorem put_of_not_mem {m : Ordered α} {key : String} (h : key ∉ keys m) (v : α) :
    put m key v = m ++ [(key, v)] := by
  induction m with
  | nil => rfl
  | cons pair rest ih =>
    obtain ⟨k, w⟩ := pair
    have hne : ¬ k = key := by
      rintro rfl
      exact h List.mem_cons_self
    have hrest : key ∉ keys rest := fun hmem => h (List.mem_cons_of_mem _ hmem)
    rw [put, if_neg hne, ih hrest, List.cons_append]

theorem putAll_of_distinct {m pairs : Ordered α} (h : Distinct (m ++ pairs)) :
    putAll m pairs = m ++ pairs := by
  induction pairs generalizing m with
  | nil => exact (List.append_nil m).symm
  | cons pair pairs ih =>
    obtain ⟨key, v⟩ := pair
    have hkey : key ∉ keys m := by
      intro hmem
      rw [Distinct, keys, List.map_append, List.nodup_append] at h
      exact h.2.2 key hmem key List.mem_cons_self rfl
    have hsplit : m ++ (key, v) :: pairs = (m ++ [(key, v)]) ++ pairs := List.append_cons _ _ _
    rw [hsplit] at h ⊢
    show putAll (put m key v) pairs = _
    rw [put_of_not_mem hkey]
    exact ih h

/-- Pairs without a key twice are a map already. -/
theorem ofList_of_distinct {pairs : Ordered α} (h : Distinct pairs) : ofList pairs = pairs :=
  putAll_of_distinct h

end Ordered

/-! ## What both sides can say -/

/-- Structured data within the reach of values: its whole numbers fit 64 bits with a sign, its other numbers
    are finite, and no object has two members of one name. -/
inductive Json.Reached : Json → Prop where
  | null : Reached .null
  | bool {b : Bool} : Reached (.bool b)
  | int {n : Int} (h : Int64.minValue.toInt ≤ n ∧ n ≤ Int64.maxValue.toInt) : Reached (.int n)
  | float {x : Float} (h : Binary64.isFinite x = true) : Reached (.float x)
  | text {s : String} : Reached (.text s)
  | array {items : List Json} (h : ∀ item ∈ items, Reached item) : Reached (.array items)
  | object {members : List (String × Json)} (hnames : Ordered.Distinct members)
      (h : ∀ member ∈ members, Reached member.2) : Reached (.object members)

namespace Value

mutual

/-- A value as far as structured data can tell it: markup is text, and a number that is infinite or not a
    number is null. -/
def asData : Value → Value
  | .null => .null
  | .bool b => .bool b
  | .int n => .int n
  | .float x => if Binary64.isFinite x then .float x else .null
  | .text s => .text s
  | .html markup => .text markup
  | .list items => .list (itemsAsData items)
  | .map entries => .map (entriesAsData entries)

/-- Items as far as structured data can tell them. -/
def itemsAsData : List Value → List Value
  | [] => []
  | item :: items => asData item :: itemsAsData items

/-- Entries as far as structured data can tell them; their keys are kept. -/
def entriesAsData : List (String × Value) → List (String × Value)
  | [] => []
  | (key, value) :: entries => (key, asData value) :: entriesAsData entries

end

/-! ## Item by item and entry by entry -/

/-- What is done one by one is a map. -/
theorem eq_map_of_cons {α β : Type} {f : α → β} {g : List α → List β} (hnil : g [] = [])
    (hcons : ∀ x xs, g (x :: xs) = f x :: g xs) (xs : List α) : g xs = xs.map f := by
  induction xs with
  | nil => exact hnil
  | cons x xs ih => rw [hcons, ih, List.map_cons]

theorem itemsAsData_eq_map (items : List Value) : itemsAsData items = items.map asData :=
  eq_map_of_cons rfl (fun _ _ => rfl) items

theorem entriesAsData_eq_map (entries : List (String × Value)) :
    entriesAsData entries = entries.map fun entry => (entry.1, asData entry.2) :=
  eq_map_of_cons rfl (fun _ _ => rfl) entries

theorem itemsToJson_eq_map (items : List Value) : itemsToJson items = items.map toJson :=
  eq_map_of_cons rfl (fun _ _ => rfl) items

theorem entriesToJson_eq_map (entries : List (String × Value)) :
    entriesToJson entries = entries.map fun entry => (entry.1, toJson entry.2) :=
  eq_map_of_cons rfl (fun _ _ => rfl) entries

theorem itemsOfJson_eq_map (items : List Json) : itemsOfJson items = items.map ofJson :=
  eq_map_of_cons rfl (fun _ _ => rfl) items

theorem membersOfJson_eq_map (members : List (String × Json)) :
    membersOfJson members = members.map fun member => (member.1, ofJson member.2) :=
  eq_map_of_cons rfl (fun _ _ => rfl) members

/-- Whether a key occurs twice does not depend on the values. -/
theorem distinct_map {α β : Type} {m : Ordered α} (h : Ordered.Distinct m) (f : α → β) :
    Ordered.Distinct (m.map fun pair => (pair.1, f pair.2)) := by
  have hkeys : Ordered.keys (m.map fun pair => (pair.1, f pair.2)) = Ordered.keys m := by
    rw [Ordered.keys, Ordered.keys, List.map_map]
    rfl
  rw [Ordered.Distinct, hkeys]
  exact h

/-! ## There and back -/

/-- A value becomes data within the reach of values. -/
theorem reached_toJson {v : Value} (hv : v.Proper) : v.toJson.Reached := by
  induction hv with
  | null => exact .null
  | bool => exact .bool
  | @int n => exact .int ⟨n.minValue_le_toInt, n.toInt_le⟩
  | @float x =>
    rw [toJson]
    split
    · next hx => exact .float hx
    · exact .null
  | text => exact .text
  | html => exact .text
  | @list items _ ih =>
    rw [toJson, itemsToJson_eq_map]
    refine .array ?_
    intro j hj
    obtain ⟨item, hitem, rfl⟩ := List.mem_map.1 hj
    exact ih item hitem
  | @map entries hkeys _ ih =>
    rw [toJson, entriesToJson_eq_map]
    refine .object (distinct_map hkeys toJson) ?_
    intro member hmember
    obtain ⟨entry, hentry, rfl⟩ := List.mem_map.1 hmember
    exact ih entry hentry

/-- A value comes back as far as data can tell it. -/
theorem ofJson_toJson {v : Value} (hv : v.Proper) : ofJson v.toJson = v.asData := by
  induction hv with
  | null | bool | text | html => rfl
  | @int n => rw [toJson, ofJson, Decimal.word?_toInt, asData]
  | @float x =>
    rw [toJson, asData]
    split <;> rfl
  | @list items _ ih =>
    rw [toJson, ofJson, asData, itemsToJson_eq_map, itemsOfJson_eq_map, itemsAsData_eq_map, List.map_map]
    exact congrArg Value.list (List.map_congr_left ih)
  | @map entries hkeys _ ih =>
    have hback : membersOfJson (entriesToJson entries) = entriesAsData entries := by
      rw [entriesToJson_eq_map, membersOfJson_eq_map, entriesAsData_eq_map, List.map_map]
      refine List.map_congr_left fun entry hentry => ?_
      exact congrArg (Prod.mk entry.1) (ih entry hentry)
    have hdistinct : Ordered.Distinct (entriesAsData entries) := by
      rw [entriesAsData_eq_map]
      exact distinct_map hkeys asData
    rw [toJson, ofJson, asData, hback, Ordered.ofList_of_distinct hdistinct]

/-- Data within the reach of values comes back as it was. -/
theorem toJson_ofJson {j : Json} (hj : j.Reached) : (ofJson j).toJson = j := by
  induction hj with
  | null | bool | text => rfl
  | @int n hn =>
    have hword : Decimal.word? n = some (Int64.ofInt n) := if_pos hn
    rw [ofJson, hword]
    exact congrArg Json.int (Decimal.toInt_of_word? hword)
  | @float x hx => exact if_pos hx
  | @array items _ ih =>
    rw [ofJson, toJson, itemsOfJson_eq_map, itemsToJson_eq_map, List.map_map]
    exact congrArg Json.array ((List.map_congr_left ih).trans (List.map_id _))
  | @object members hnames _ ih =>
    have hback : entriesToJson (membersOfJson members) = members := by
      rw [membersOfJson_eq_map, entriesToJson_eq_map, List.map_map]
      refine (List.map_congr_left fun member hmember => ?_).trans (List.map_id _)
      exact congrArg (Prod.mk member.1) (ih member hmember)
    have hdistinct : Ordered.Distinct (membersOfJson members) := by
      rw [membersOfJson_eq_map]
      exact distinct_map hnames ofJson
    rw [ofJson, toJson, Ordered.ofList_of_distinct hdistinct, hback]

/-- A value comes back from structured data with its markup made text and its numbers that are infinite or
    not a number made null, and the same in all else; and structured data within the reach of values,
    as all is that values become, comes back as it was. -/
theorem data_there_and_back (v : Value) (j : Json) :
    (v.Proper → v.toJson.Reached ∧ ofJson v.toJson = v.asData) ∧
    (j.Reached → (ofJson j).toJson = j) := by
  refine ⟨fun hv => ?_, toJson_ofJson⟩
  exact ⟨reached_toJson hv, ofJson_toJson hv⟩

/-- A map with markup and infinity inside, and an object with the least whole number and minus zero. -/
theorem data_there_and_back_nested :
    ofJson (Value.map [("b", .list [.html "<i>", .float (1.0 / 0.0)]), ("a", .float 2.0)]).toJson
      = .map [("b", .list [.text "<i>", .null]), ("a", .float 2.0)] ∧
    (ofJson (.object [("b", .array [.int (-9223372036854775808), .null]), ("a", .float (-0.0))])).toJson
      = .object [("b", .array [.int (-9223372036854775808), .null]), ("a", .float (-0.0))] := by
  obtain ⟨hvalue, hdata⟩ := data_there_and_back
    (.map [("b", .list [.html "<i>", .float (1.0 / 0.0)]), ("a", .float 2.0)])
    (.object [("b", .array [.int (-9223372036854775808), .null]), ("a", .float (-0.0))])
  have hproper : (Value.map [("b", .list [.html "<i>", .float (1.0 / 0.0)]), ("a", .float 2.0)]).Proper := by
    refine .map (by decide) ?_
    simp only [List.forall_mem_cons]
    refine ⟨.list ?_, .float, List.forall_mem_nil _⟩
    simp only [List.forall_mem_cons]
    exact ⟨.html, .float, List.forall_mem_nil _⟩
  have hreached : (Json.object
      [("b", .array [.int (-9223372036854775808), .null]), ("a", .float (-0.0))]).Reached := by
    refine .object (by decide) ?_
    simp only [List.forall_mem_cons]
    refine ⟨.array ?_, .float (by decide), List.forall_mem_nil _⟩
    simp only [List.forall_mem_cons]
    exact ⟨.int (by decide), .null, List.forall_mem_nil _⟩
  refine ⟨(hvalue hproper).2.trans ?_, hdata hreached⟩
  have hinfinite : Binary64.isFinite (1.0 / 0.0) = false := by decide
  have hfinite : Binary64.isFinite 2.0 = true := by decide
  simp [asData, itemsAsData, entriesAsData, hinfinite, hfinite]

end Value

end Stencil
