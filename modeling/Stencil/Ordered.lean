/-
  Maps that keep the order in which their keys were first put in.

  A map is its list of pairs.  Putting a key that is present replaces its value where it stands; putting
  a new one adds it at the end; so the order that a reader sees is the order of first insertion.  Maps
  built by `put` have distinct keys, which is all that distinguishes them from other lists of pairs.
-/

namespace Stencil

/-- A map as its pairs, oldest key first. -/
abbrev Ordered (α : Type) := List (String × α)

namespace Ordered

variable {α β : Type}

/-- The value of a key. -/
def get? : Ordered α → String → Option α
  | [], _ => none
  | (k, v) :: rest, key => if k = key then some v else get? rest key

/-- Whether a key is present. -/
def has (m : Ordered α) (key : String) : Bool := (get? m key).isSome

/-- Give a key a value: in place when the key is present, at the end otherwise. -/
def put : Ordered α → String → α → Ordered α
  | [], key, value => [(key, value)]
  | (k, v) :: rest, key, value =>
    if k = key then (k, value) :: rest else (k, v) :: put rest key value

/-- Put pairs one after the other. -/
def putAll (m : Ordered α) (pairs : List (String × α)) : Ordered α :=
  pairs.foldl (fun m pair => put m pair.1 pair.2) m

/-- A map from pairs, of which the last one for a key counts. -/
def ofList (pairs : List (String × α)) : Ordered α := putAll [] pairs

/-- The keys in order. -/
def keys (m : Ordered α) : List String := m.map Prod.fst

/-- The map without a key. -/
def erase (m : Ordered α) (key : String) : Ordered α := m.filter fun pair => pair.1 != key

/-- No key occurs twice. -/
def Distinct (m : Ordered α) : Prop := (keys m).Nodup

theorem get?_put (m : Ordered α) (key other : String) (value : α) :
    get? (put m key value) other = if key = other then some value else get? m other := by
  induction m with
  | nil => simp [put, get?]
  | cons pair rest ih =>
    obtain ⟨k, v⟩ := pair
    by_cases hk : k = key
    · subst hk
      by_cases ho : k = other <;> simp [put, get?, ho]
    · by_cases ho : k = other
      · subst ho; simp [put, get?, hk, Ne.symm hk]
      · simp [put, get?, hk, ho, ih]

theorem mem_of_get?_eq_some {m : Ordered α} {key : String} {v : α} (h : get? m key = some v) :
    (key, v) ∈ m := by
  induction m with
  | nil => cases h
  | cons pair rest ih =>
    obtain ⟨k, w⟩ := pair
    rw [get?] at h
    split at h
    · next hk =>
      obtain rfl := Option.some.inj h
      exact hk ▸ List.mem_cons_self
    · exact List.mem_cons_of_mem _ (ih h)

theorem mem_put {m : Ordered α} {key : String} {v : α} {pair : String × α} (h : pair ∈ put m key v) :
    pair ∈ m ∨ pair = (key, v) := by
  induction m with
  | nil => exact .inr (List.mem_singleton.1 h)
  | cons first rest ih =>
    obtain ⟨k, w⟩ := first
    rw [put] at h
    split at h
    · next hk =>
      rcases List.mem_cons.1 h with h | h
      · exact .inr (hk ▸ h)
      · exact .inl (List.mem_cons_of_mem _ h)
    · rcases List.mem_cons.1 h with h | h
      · exact .inl (h ▸ List.mem_cons_self)
      · exact (ih h).imp_left (List.mem_cons_of_mem _)

theorem keys_put (m : Ordered α) (key : String) (value : α) :
    keys (put m key value) = if key ∈ keys m then keys m else keys m ++ [key] := by
  induction m with
  | nil => simp [put, keys]
  | cons pair rest ih =>
    obtain ⟨k, v⟩ := pair
    by_cases hk : k = key
    · simp [put, keys, hk]
    · have hne : key ≠ k := Ne.symm hk
      simp only [keys] at ih
      simp only [put, hk, keys, if_false, List.map_cons, ih, List.mem_cons, hne, false_or]
      by_cases hm : key ∈ List.map Prod.fst rest <;> simp [hm]

theorem distinct_put {m : Ordered α} (h : Distinct m) (key : String) (value : α) :
    Distinct (put m key value) := by
  simp only [Distinct, keys_put] at *
  split
  · exact h
  · next hk => exact List.nodup_append.2 ⟨h, by simp, by simp; intro a ha e; exact hk (e ▸ ha)⟩

/-- A map built from pairs has distinct keys. -/
theorem distinct_ofList (pairs : List (String × α)) : Distinct (ofList pairs) := by
  have go : ∀ m : Ordered α, Distinct m → Distinct (putAll m pairs) := by
    induction pairs with
    | nil => exact fun m h => h
    | cons p ps ih => exact fun m h => ih _ (distinct_put h _ _)
  exact go [] List.nodup_nil

end Ordered

end Stencil
