import Stencil.Proofs.Value.Inherited
import Mathlib.Data.List.Perm.Subperm
/-
  Values and their parts.

  A list or a map is a value made of values, so what holds of a list or map whenever it holds of all parts
  of it holds of all values.

  A map is a list of pairs, and only the way it is put together keeps its keys apart.  A value is proper
  when no map in it, at any depth, has a key twice.  Structured data becomes proper values, whatever
  it repeats.

  Two maps with as many keys are compared by looking the keys of one up in the other.  The main statement
  is that it does not matter which of the two is searched: if every entry of one finds its like, then every
  entry of the other does.
-/

namespace Stencil

/-! ## Looking keys up in another map -/

namespace Ordered

variable {α β : Type}

instance (m : Ordered α) : Decidable (Distinct m) := inferInstanceAs (Decidable (keys m).Nodup)

theorem mem_keys_of_mem {m : Ordered α} {entry : String × α} (h : entry ∈ m) : entry.1 ∈ keys m :=
  List.mem_map_of_mem h

/-- A key has the value it is paired with, where no key occurs twice. -/
theorem get?_of_mem {m : Ordered α} (hm : Distinct m) {key : String} {v : α} (h : (key, v) ∈ m) :
    get? m key = some v := by
  induction m with
  | nil => cases h
  | cons pair rest ih =>
    obtain ⟨k, w⟩ := pair
    obtain ⟨hk, hrest⟩ := List.nodup_cons.1 hm
    rw [get?]
    rcases List.mem_cons.1 h with heq | hmem
    · obtain ⟨rfl, rfl⟩ := Prod.mk.inj heq
      exact if_pos rfl
    · have hkey : key ∈ keys rest := mem_keys_of_mem hmem
      have hne : k ≠ key := by
        intro heq
        rw [heq] at hk
        exact hk hkey
      rw [if_neg hne]
      exact ih hrest hmem

/-- Every entry of a map finds its like in another one. -/
def FoundIn (R : α → β → Prop) (xs : Ordered α) (ys : Ordered β) : Prop :=
  ∀ entry ∈ xs, ∃ w, get? ys entry.1 = some w ∧ R entry.2 w

theorem foundIn_cons {R : α → β → Prop} {key : String} {v : α} {xs : Ordered α} {ys : Ordered β} :
    FoundIn R ((key, v) :: xs) ys ↔ (∃ w, get? ys key = some w ∧ R v w) ∧ FoundIn R xs ys :=
  List.forall_mem_cons

theorem FoundIn.mono {R S : α → β → Prop} {xs : Ordered α} {ys : Ordered β} (h : FoundIn R xs ys)
    (hRS : ∀ entry ∈ xs, ∀ w, (entry.1, w) ∈ ys → R entry.2 w → S entry.2 w) : FoundIn S xs ys := by
  intro entry hentry
  obtain ⟨w, hw, hR⟩ := h entry hentry
  exact ⟨w, hw, hRS entry hentry w (mem_of_get?_eq_some hw) hR⟩

/-- As many keys, all of them in the other map, are the same keys. -/
theorem FoundIn.keys_subset {R : α → β → Prop} {xs : Ordered α} {ys : Ordered β} (hxs : Distinct xs)
    (hlength : xs.length = ys.length) (h : FoundIn R xs ys) : keys ys ⊆ keys xs := by
  have hsubset : keys xs ⊆ keys ys := by
    intro key hkey
    obtain ⟨entry, hentry, rfl⟩ := List.mem_map.1 hkey
    obtain ⟨w, hw, -⟩ := h entry hentry
    exact mem_keys_of_mem (mem_of_get?_eq_some hw)
  have hle : (keys ys).length ≤ (keys xs).length := by
    simp only [keys, List.length_map]
    omega
  exact ((List.subperm_of_subset hxs hsubset).perm_of_length_le hle).symm.subset

/-- Which of two maps is searched does not matter. -/
theorem FoundIn.flip {R : α → β → Prop} {xs : Ordered α} {ys : Ordered β} (hxs : Distinct xs)
    (hys : Distinct ys) (hlength : xs.length = ys.length) (h : FoundIn R xs ys) :
    FoundIn (fun w v => R v w) ys xs := by
  intro entry hentry
  obtain ⟨⟨key, v⟩, hmem, heq⟩ := List.mem_map.1 (h.keys_subset hxs hlength (mem_keys_of_mem hentry))
  obtain ⟨w, hw, hR⟩ := h (key, v) hmem
  obtain rfl : key = entry.1 := heq
  -- the entry that was found is the one the search comes from
  obtain rfl : entry.2 = w := Option.some.inj ((get?_of_mem hys hentry).symm.trans hw)
  exact ⟨v, get?_of_mem hxs hmem, hR⟩

theorem mem_putAll {m : Ordered α} {pairs : List (String × α)} {entry : String × α}
    (h : entry ∈ putAll m pairs) : entry ∈ m ∨ entry ∈ pairs := by
  induction pairs generalizing m with
  | nil => exact .inl h
  | cons pair pairs ih =>
    rcases ih h with h | h
    · rcases mem_put h with h | rfl
      · exact .inl h
      · exact .inr List.mem_cons_self
    · exact .inr (List.mem_cons_of_mem _ h)

theorem mem_of_mem_ofList {pairs : List (String × α)} {entry : String × α} (h : entry ∈ ofList pairs) :
    entry ∈ pairs :=
  (mem_putAll h).resolve_left List.not_mem_nil

end Ordered

/-! ## The parts of a value -/

namespace Value

/-- Induction over values: what holds of a list or a map if it holds of its parts holds of all values. -/
@[elab_as_elim]
theorem inductionOnParts {motive : Value → Prop} (v : Value) (null : motive .null)
    (bool : ∀ b, motive (.bool b)) (int : ∀ n, motive (.int n)) (float : ∀ x, motive (.float x))
    (text : ∀ s, motive (.text s)) (html : ∀ markup, motive (.html markup))
    (list : ∀ items : List Value, (∀ v ∈ items, motive v) → motive (.list items))
    (map : ∀ entries : List (String × Value), (∀ entry ∈ entries, motive entry.2) →
      motive (.map entries)) : motive v := by
  refine @Value.rec motive (fun items => ∀ v ∈ items, motive v)
    (fun entries => ∀ entry ∈ entries, motive entry.2) (fun entry => motive entry.2)
    null bool int float text html list map ?noItem ?item ?noEntry ?entry (fun _ _ h => h) v
  case noItem => exact fun v h => absurd h List.not_mem_nil
  case item => exact fun v items hv hitems => List.forall_mem_cons.2 ⟨hv, hitems⟩
  case noEntry => exact fun entry h => absurd h List.not_mem_nil
  case entry => exact fun entry entries hentry hentries => List.forall_mem_cons.2 ⟨hentry, hentries⟩

/-- No map in a value, at any depth, has a key twice. -/
inductive Proper : Value → Prop where
  | null : Proper .null
  | bool {b : Bool} : Proper (.bool b)
  | int {n : Int64} : Proper (.int n)
  | float {x : Float} : Proper (.float x)
  | text {s : String} : Proper (.text s)
  | html {markup : String} : Proper (.html markup)
  | list {items : List Value} (h : ∀ v ∈ items, Proper v) : Proper (.list items)
  | map {entries : List (String × Value)} (hkeys : Ordered.Distinct entries)
      (h : ∀ entry ∈ entries, Proper entry.2) : Proper (.map entries)

theorem inherited_proper : Inherited Proper where
  null := .null
  bool _ := .bool
  int _ := .int
  float _ := .float
  text _ := .text
  list h := .list h
  map hkeys h := .map hkeys h
  items h := by
    cases h with
    | list h => exact h
  entries h := by
    cases h with
    | map _ h => exact h

mutual

/-- Structured data becomes proper values: of members with one name only one is kept. -/
theorem proper_ofJson (j : Json) : (ofJson j).Proper :=
  match j with
  | .null => .null
  | .bool _ => .bool
  | .int n => by
    rw [ofJson]
    split
    · exact .int
    · exact .float
  | .float _ => .float
  | .text _ => .text
  | .array items => .list (proper_itemsOfJson items)
  | .object members => .map (Ordered.distinct_ofList _) fun entry hentry =>
      proper_membersOfJson members entry (Ordered.mem_of_mem_ofList hentry)
termination_by structural j

theorem proper_itemsOfJson (items : List Json) : ∀ v ∈ itemsOfJson items, v.Proper :=
  match items with
  | [] => fun _ h => absurd h List.not_mem_nil
  | item :: items => List.forall_mem_cons.2 ⟨proper_ofJson item, proper_itemsOfJson items⟩
termination_by structural items

theorem proper_membersOfJson (members : List (String × Json)) :
    ∀ entry ∈ membersOfJson members, entry.2.Proper :=
  match members with
  | [] => fun _ h => absurd h List.not_mem_nil
  | (_, value) :: members => List.forall_mem_cons.2 ⟨proper_ofJson value, proper_membersOfJson members⟩
termination_by structural members

end

end Value

end Stencil
