import Mathlib.Data.List.Induction
import Stencil.Proofs.Names
import Stencil.View.Registry
/-
  What a registry holds after any registrations.

  Definitions of one name compete, and the order they come in is up to chance.  The rule is that a name is
  settled once the application has defined it: from then on the definition stays, whatever comes.  Until then
  the latest definition counts.

  A step says what one registration does by this rule, and everything about whole histories follows by
  induction from their end: the definition of a name is the first one of the application, or else the last
  one of a vendor, so where there is one of the application it does not matter when it came.
-/

namespace Stencil

/-! ## The definitions of a name -/

namespace RegisteredComponent

/-- The definitions of a name, in their order. -/
def among (name : String) (ds : List RegisteredComponent) : List RegisteredComponent :=
  ds.filter fun d => d.name = name

/-- The one that counts among definitions of a name: the first one of the application, or else the last one
    of a vendor. -/
def decisive? (ds : List RegisteredComponent) : Option RegisteredComponent :=
  (ds.find? fun d => !d.vendor).or ds.getLast?

theorem among_concat (name : String) (ds : List RegisteredComponent) (d : RegisteredComponent) :
    among name (ds ++ [d]) = if d.name = name then among name ds ++ [d] else among name ds := by
  by_cases h : d.name = name <;> simp [among, h]

/-- A later definition counts unless one of the application has come before. -/
theorem decisive?_concat (ds : List RegisteredComponent) (d : RegisteredComponent) :
    decisive? (ds ++ [d]) = if (decisive? ds).any (fun c => !c.vendor) then decisive? ds else some d := by
  cases hfirst : ds.find? fun d => !d.vendor with
  | some c =>
    have hc : c.vendor = false := by simpa using List.find?_some hfirst
    simp [decisive?, List.find?_append, hfirst, hc]
  | none =>
    have hvendors : ∀ c ∈ ds, c.vendor = true := by simpa using List.find?_eq_none.1 hfirst
    have hlast : (ds.getLast?.any fun c => !c.vendor) = false := by
      cases hlast : ds.getLast? with
      | none => rfl
      | some c => simp [hvendors c (List.mem_of_getLast? hlast)]
    cases hd : d.vendor <;> simp [decisive?, List.find?_append, hfirst, hlast, hd]

/-- With one definition of the application among those of vendors, it is the one that counts, wherever it
    stands. -/
theorem decisive?_of_perm {ds vendors : List RegisteredComponent} {a : RegisteredComponent}
    (ha : a.vendor = false) (hvendors : ∀ v ∈ vendors, v.vendor = true) (h : ds.Perm (a :: vendors)) :
    decisive? ds = some a := by
  have hmem : a ∈ ds := h.mem_iff.2 List.mem_cons_self
  cases hfirst : ds.find? fun d => !d.vendor with
  | none =>
    have hnone := List.find?_eq_none.1 hfirst a hmem
    simp [ha] at hnone
  | some c =>
    have hc : c.vendor = false := by simpa using List.find?_some hfirst
    have hca : c ∈ a :: vendors := h.mem_iff.1 (List.mem_of_find?_eq_some hfirst)
    rcases List.mem_cons.1 hca with rfl | hcv
    · simp [decisive?, hfirst]
    · rw [hvendors c hcv] at hc
      cases hc

end RegisteredComponent

/-! ## One registration -/

namespace Registry

open RegisteredComponent

/-- Whether the application has defined a name. -/
def settled (r : Registry) (name : String) : Bool := (r.get? name).any fun d => !d.vendor

/-- The registry after a registration; one that is refused leaves it as it was. -/
def registered (r : Registry) (d : RegisteredComponent) : Registry :=
  match r.register d with
  | .ok (_, after) => after
  | .error _ => r

/-- A further definition of a name that the application has defined is refused, or ignored if it is a
    vendor's. -/
theorem register_of_settled {r : Registry} {c d : RegisteredComponent} (h : r.get? d.name = some c)
    (hc : c.vendor = false) :
    r.register d =
      if d.vendor then .ok (.ignored, r)
      else .error (.duplicateComponent d.name c.originText d.originText) := by
  simp [register, h, hc]

/-- A registration puts a component under its name, except where the application has settled it. -/
theorem registered_eq (r : Registry) (d : RegisteredComponent) :
    r.registered d = if r.settled d.name then r else r.put d := by
  unfold registered settled
  cases h : r.get? d.name with
  | none => simp [register, h]
  | some c =>
    cases hc : c.vendor with
    | true => simp [register, h, hc]
    | false =>
      rw [register_of_settled h hc]
      cases d.vendor <;> simp [hc]

theorem registered_of_settled {r : Registry} {c d : RegisteredComponent} (h : r.get? d.name = some c)
    (hc : c.vendor = false) : r.registered d = r := by
  rw [registered_eq, if_pos]
  simp [settled, h, hc]

theorem get?_registered (r : Registry) (d : RegisteredComponent) (name : String) :
    (r.registered d).get? name =
      if d.name = name then if (r.get? name).any (fun c => !c.vendor) then r.get? name else some d
      else r.get? name := by
  rw [registered_eq, settled]
  by_cases hname : d.name = name
  · subst hname
    rw [if_pos rfl]
    split
    · rfl
    · rw [get?_put, if_pos rfl]
  · rw [if_neg hname]
    split
    · rfl
    · rw [get?_put, if_neg hname]

theorem names_registered (r : Registry) (d : RegisteredComponent) :
    (r.registered d).names = if d.name ∈ r.names then r.names else r.names ++ [d.name] := by
  rw [registered_eq]
  split
  · next hsettled =>
    -- a settled name is there already
    have hmem : d.name ∈ r.names := by
      unfold settled at hsettled
      cases hc : r.get? d.name with
      | none => simp [hc] at hsettled
      | some c => exact List.mem_map.2 ⟨_, Ordered.mem_of_get?_eq_some hc, rfl⟩
    rw [if_pos hmem]
  · exact Ordered.keys_put r.entries d.name d

/-! ## Any registrations -/

/-- The registry after registrations, one after the other. -/
def registeredAll (r : Registry) (ds : List RegisteredComponent) : Registry := ds.foldl registered r

theorem registeredAll_concat (r : Registry) (ds : List RegisteredComponent) (d : RegisteredComponent) :
    r.registeredAll (ds ++ [d]) = (r.registeredAll ds).registered d := by
  simp [registeredAll]

/-- A definition of the application stays. -/
theorem get?_registeredAll_of_settled {r : Registry} {name : String} {c : RegisteredComponent}
    (h : r.get? name = some c) (hc : c.vendor = false) (later : List RegisteredComponent) :
    (r.registeredAll later).get? name = some c := by
  induction later using List.reverseRecOn with
  | nil => exact h
  | append_singleton later d ih =>
    rw [registeredAll_concat, get?_registered, ih]
    simp [hc]

/-- What a registry that starts empty has under a name is the definition that counts. -/
theorem get?_registeredAll (ds : List RegisteredComponent) (name : String) :
    ((∅ : Registry).registeredAll ds).get? name = decisive? (among name ds) := by
  induction ds using List.reverseRecOn with
  | nil => rfl
  | append_singleton ds d ih =>
    rw [registeredAll_concat, get?_registered, among_concat, ih]
    split
    · rw [decisive?_concat]
    · rfl

theorem names_registeredAll (ds : List RegisteredComponent) :
    ((∅ : Registry).registeredAll ds).names = (ds.map RegisteredComponent.name).eraseDups := by
  induction ds using List.reverseRecOn with
  | nil => rfl
  | append_singleton ds d ih =>
    rw [registeredAll_concat, names_registered, ih, List.map_append, List.map_singleton, eraseDups_concat]

theorem nodup_names_registeredAll (ds : List RegisteredComponent) :
    ((∅ : Registry).registeredAll ds).names.Nodup := by
  induction ds using List.reverseRecOn with
  | nil => exact List.nodup_nil
  | append_singleton ds d ih =>
    rw [registeredAll_concat, registered_eq]
    split
    · exact ih
    · exact Ordered.distinct_put ih d.name d

/-- After any registrations a name has its first definition by the application, or else its last one by a
    vendor.  A definition of the application stays: another one is refused, with the origins of both in
    their order, and a vendor's is ignored, and either leaves the registry as it is.  The names stand in
    the order of their first registration, each once.  So it does not matter when the one definition of
    the application came among those of vendors. -/
theorem registeredAll_decides (ds : List RegisteredComponent) :
    let r := (∅ : Registry).registeredAll ds
    (∀ name, r.get? name = decisive? (among name ds)) ∧
    (∀ name c, r.get? name = some c → c.vendor = false →
      ∀ later, (r.registeredAll later).get? name = some c) ∧
    (∀ c d, r.get? d.name = some c → c.vendor = false → d.vendor = false →
      r.register d = .error (.duplicateComponent d.name c.originText d.originText) ∧
        r.registered d = r) ∧
    (∀ c d, r.get? d.name = some c → c.vendor = false → d.vendor = true →
      r.register d = .ok (.ignored, r) ∧ r.registered d = r) ∧
    (r.names = (ds.map RegisteredComponent.name).eraseDups ∧ r.names.Nodup) ∧
    ∀ name a vendors, a.vendor = false → (∀ v ∈ vendors, v.vendor = true) →
      (among name ds).Perm (a :: vendors) → r.get? name = some a := by
  intro r
  have hget : ∀ name, r.get? name = decisive? (among name ds) := get?_registeredAll ds
  refine ⟨hget, ?_, ?_, ?_, ⟨names_registeredAll ds, nodup_names_registeredAll ds⟩, ?_⟩
  · intro name c h hc later
    exact get?_registeredAll_of_settled h hc later
  · intro c d h hc hd
    refine ⟨?_, registered_of_settled h hc⟩
    rw [register_of_settled h hc, hd]
    rfl
  · intro c d h hc hd
    refine ⟨?_, registered_of_settled h hc⟩
    rw [register_of_settled h hc, hd]
    rfl
  · intro name a vendors ha hvendors hperm
    rw [hget, decisive?_of_perm ha hvendors hperm]

/-- A component of the application between two of vendors, and then another one of the application. -/
theorem registeredAll_decides_between :
    let early : RegisteredComponent := ⟨"x-c", .inline "1", some ⟨"vendor/1"⟩, true⟩
    let own : RegisteredComponent := ⟨"x-c", .inline "2", some ⟨"app/2"⟩, false⟩
    let late : RegisteredComponent := ⟨"x-c", .inline "3", none, true⟩
    let again : RegisteredComponent := ⟨"x-c", .inline "4", none, false⟩
    let r := (∅ : Registry).registeredAll [early, own, late]
    own.vendor = false ∧ (∀ v ∈ [late, early], v.vendor = true) ∧
      (among "x-c" [early, own, late]).Perm (own :: [late, early]) ∧ r.get? "x-c" = some own ∧
      again.vendor = false ∧
      r.register again = .error (.duplicateComponent "x-c" "app/2" "<inline>") := by
  intro early own late again r
  have hperm : (among "x-c" [early, own, late]).Perm (own :: [late, early]) := by decide
  obtain ⟨-, -, hrefused, -, -, horder⟩ := registeredAll_decides [early, own, late]
  have hown : r.get? "x-c" = some own := horder "x-c" own [late, early] rfl (by decide) hperm
  exact ⟨rfl, by decide, hperm, hown, rfl, (hrefused own again hown rfl rfl).1⟩

end Registry

end Stencil
