import Mathlib.Data.List.Basic
import Stencil.Ordered
/-
  Names, each once, and maps over them.

  Names that come again are left out, so that each name stands where it came first; a map over such names has a
  value for each of them, and giving a name a value changes the value of that name, or adds the name at the
  end.
-/

namespace Stencil

variable {α : Type}

/-- Erasing what comes again leaves each member once. -/
theorem nodup_eraseDups [BEq α] [LawfulBEq α] (as : List α) : as.eraseDups.Nodup := by
  match as with
  | [] => exact List.nodup_nil
  | a :: as =>
    rw [List.eraseDups_cons]
    have hshorter : (as.filter fun b => !b == a).length < as.length + 1 :=
      Nat.lt_succ_of_le (List.length_filter_le _ _)
    refine List.nodup_cons.2 ⟨fun h => ?_, nodup_eraseDups _⟩
    have ha := (List.mem_filter.1 (List.mem_eraseDups.1 h)).2
    simp at ha
termination_by as.length

/-- What comes at the end is left out if it came before. -/
theorem eraseDups_concat [DecidableEq α] (as : List α) (a : α) :
    (as ++ [a]).eraseDups = if a ∈ as.eraseDups then as.eraseDups else as.eraseDups ++ [a] := by
  rw [List.eraseDups_append]
  by_cases h : a ∈ as
  · have hnone : [a].removeAll as = [] := by simpa [List.removeAll] using h
    rw [hnone, if_pos (List.mem_eraseDups.2 h), List.eraseDups_nil, List.append_nil]
  · have hone : [a].removeAll as = [a] := by simpa [List.removeAll] using h
    rw [hone, if_neg fun hmem => h (List.mem_eraseDups.1 hmem)]
    rfl

namespace Ordered

/-- The map that gives each of some keys a value. -/
def tabulate (keys : List String) (f : String → α) : Ordered α := keys.map fun key => (key, f key)

theorem get?_tabulate (keys : List String) (f : String → α) (key : String) :
    get? (tabulate keys f) key = if key ∈ keys then some (f key) else none := by
  unfold tabulate
  induction keys with
  | nil => simp [get?]
  | cons k keys ih =>
    by_cases h : k = key
    · simp [get?, h]
    · simp [get?, h, Ne.symm h, ih]

/-- Giving a key a value changes its value, and adds the key if it is new. -/
theorem put_tabulate {keys : List String} (hkeys : keys.Nodup) (f : String → α) (key : String) (value : α) :
    put (tabulate keys f) key value =
      tabulate (if key ∈ keys then keys else keys ++ [key]) fun k => if k = key then value else f k := by
  unfold tabulate
  induction keys with
  | nil => simp [put]
  | cons k keys ih =>
    obtain ⟨hk, hkeys⟩ := List.nodup_cons.1 hkeys
    by_cases h : k = key
    · subst h
      have hothers : ∀ other ∈ keys, (other, f other) = (other, if other = k then value else f other) := by
        intro other hother
        rw [if_neg]
        rintro rfl
        exact hk hother
      simpa [put] using hothers
    · have hmem : key ∈ k :: keys ↔ key ∈ keys := by simp [Ne.symm h]
      simp only [List.map_cons, put, h, if_false, ih hkeys, hmem]
      split <;> simp [h]

end Ordered

end Stencil
