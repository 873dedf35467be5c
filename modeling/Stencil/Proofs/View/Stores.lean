import Stencil.View.Store
/-
  The laws of stores.

  Keys for the same template cannot be told apart: a store has one answer for all of them, putting a
  template under one of them puts it under each, and taking one out takes out each.

  A store keeps to a property of keys and templates when all that it answers has the property.  An empty
  store keeps to every property, taking templates out loses none, and a template with the property may be
  put in, if the property does not tell keys for the same template apart.
-/

namespace Stencil

namespace StoreKey

theorem same_refl (key : StoreKey) : key.same key = true := by
  cases key <;> simp [same, Path.same]

/-- Keys for the same template are for the same templates as any third key. -/
theorem same_congr {a b : StoreKey} (h : a.same b = true) (c : StoreKey) : a.same c = b.same c := by
  cases a <;> cases b <;> simp [same, Path.same] at h <;> cases c <;> simp [same, Path.same, h]

theorem same_comm (a b : StoreKey) : a.same b = b.same a := by
  cases hab : a.same b with
  | true => rw [← same_congr hab a, same_refl]
  | false =>
    cases hba : b.same a with
    | true => rw [← same_congr hba b, same_refl] at hab; cases hab
    | false => rfl

end StoreKey

namespace Store

theorem get?_empty (key : StoreKey) : get? {} key = none := rfl

/-- Keys for the same template cannot be told apart. -/
theorem get?_congr (s : Store) {a b : StoreKey} (h : a.same b = true) : s.get? a = s.get? b := by
  have hsame : ∀ entry : StoreKey × Template, entry.1.same a = entry.1.same b := fun entry => by
    rw [StoreKey.same_comm, StoreKey.same_congr h, StoreKey.same_comm]
  simp only [get?, hsame]

/-- What is taken out is gone, and nothing else is. -/
theorem get?_erase (s : Store) (key other : StoreKey) :
    (s.erase key).get? other = if key.same other then none else s.get? other := by
  unfold erase get?
  rw [List.find?_filter]
  split
  · next hsame =>
    rw [List.find?_eq_none.2, Option.map_none]
    rintro entry - hentry
    simp only [Bool.not_eq_true', decide_eq_true_eq] at hentry
    -- an entry for the other key is one for the key that was taken out
    have hboth := StoreKey.same_congr hentry.2 key
    rw [hentry.1, StoreKey.same_comm, hsame] at hboth
    cases hboth
  · next hother =>
    refine congrArg _ (congrArg (List.find? · _) (funext fun entry => ?_))
    cases hentry : entry.1.same other with
    | false => simp
    | true =>
      have hkey := StoreKey.same_congr hentry key
      rw [StoreKey.same_comm other key] at hkey
      simp [hkey, hother]

/-- Under each key for the same template there is what was put there last. -/
theorem get?_insert (s : Store) (key other : StoreKey) (t : Template) :
    (s.insert key t).get? other = if key.same other then some t else s.get? other := by
  have herase := s.get?_erase key other
  unfold get? at herase ⊢
  unfold insert
  rw [List.find?_cons]
  cases hsame : key.same other with
  | true => rfl
  | false =>
    rw [hsame] at herase
    exact herase

/-- All that a store answers has a property. -/
def All (P : StoreKey → Template → Prop) (s : Store) : Prop :=
  ∀ key t, s.get? key = some t → P key t

variable {P : StoreKey → Template → Prop} {s : Store}

theorem all_empty : All P {} := by
  intro key t h
  cases h

/-- A store that answers nothing has nothing. -/
theorem eq_empty_of_all (h : All (fun _ _ => False) s) : s = {} := by
  obtain ⟨entries⟩ := s
  cases entries with
  | nil => rfl
  | cons entry entries =>
    refine (h entry.1 entry.2 ?_).elim
    simp [get?, StoreKey.same_refl]

theorem All.erase (h : All P s) (key : StoreKey) : All P (s.erase key) := by
  intro other t hother
  rw [get?_erase] at hother
  split at hother
  · cases hother
  · exact h other t hother

theorem All.insert (h : All P s) {key : StoreKey} {t : Template}
    (ht : ∀ other, key.same other = true → P other t) : All P (s.insert key t) := by
  intro other t' hother
  rw [get?_insert] at hother
  split at hother
  · next hsame =>
    obtain rfl := Option.some.inj hother
    exact ht other hsame
  · exact h other t' hother

end Store

end Stencil
