import Mathlib.Logic.Function.Basic
import Stencil.Proofs.View.Sessions
/-
  Engines that share one store.

  A template is kept under its key alone, without the dialect it was compiled in.  So an engine may be
  served what was compiled in another dialect: by itself, before its options changed, or by an engine it
  shares the store with.

  A store is settled on a dialect while whoever compiles into it or takes out of it does so in this dialect;
  once it has been emptied it may be settled on another.  The invariant is that all that such a store has
  is what a key for it means in this dialect, to one of the engines.  The main statement follows: while the
  store is settled, each engine is served in the dialect of the options it has at that moment.
-/

namespace Stencil

/-! ## Sharing a store -/

/-- Engines, and the store that all of them use in place of their own. -/
structure Sharing (ι : Type) where
  engines : ι → Engine
  store : Store

/-- What may happen to engines that share a store. -/
inductive Move (ι : Type) where
  /-- An engine is given options. -/
  | configure (i : ι) (options : EngineSettings)
  | ask (i : ι) (r : Request)

namespace Sharing

variable {ι : Type} [DecidableEq ι]

/-- An engine with the store that it shares. -/
def engine (g : Sharing ι) (i : ι) : Engine := { g.engines i with store := g.store }

/-- The engines and their store after a move. -/
def step (g : Sharing ι) : Move ι → Sharing ι
  | .configure i options =>
    { g with engines := Function.update g.engines i { g.engines i with options := options } }
  | .ask i r =>
    ⟨Function.update g.engines i ((g.engine i).serve r).2, ((g.engine i).serve r).2.store⟩

/-- The engines and their store after moves. -/
def after (g : Sharing ι) : List (Move ι) → Sharing ι
  | [] => g
  | m :: ms => (g.step m).after ms

/-! ## Stores that are settled on a dialect -/

/-- The dialect in which a move compiles into the store or takes out of it. -/
def usedIn? (g : Sharing ι) : Move ι → Option Dialect
  | .configure .. => none
  | .ask i r =>
    if (g.engines i).options.cache && r.compiles then some (g.engines i).options.dialect else none

/-- The dialect a store is settled on after a move; none when there is nothing in it. -/
def settledOn (g : Sharing ι) (d : Option Dialect) : Move ι → Option Dialect
  | .ask _ .clear => none
  | m => (g.usedIn? m).or d

/-- Along moves that start with a store settled on a dialect, it is used in the dialect it is settled on. -/
def Settled (g : Sharing ι) (d : Option Dialect) : List (Move ι) → Prop
  | [] => True
  | m :: ms =>
    (∀ a b, d = some a → g.usedIn? m = some b → a = b) ∧ (g.step m).Settled (g.settledOn d m) ms

/-- A template is what a key for it means in a dialect to one of the engines. -/
def Origin (g : Sharing ι) (d : Dialect) (key : StoreKey) (t : Template) : Prop :=
  ∃ i other, other.same key = true ∧ (g.engines i).Means d other t

/-- All that a store has is from the dialect it is settled on. -/
def Within (g : Sharing ι) (d : Option Dialect) : Prop :=
  g.store.All fun key t => ∃ a, d = some a ∧ g.Origin a key t

variable {g : Sharing ι} {d : Option Dialect}

theorem within_configure (h : g.Within d) (i : ι) (options : EngineSettings) :
    (g.step (.configure i options)).Within (g.settledOn d (.configure i options)) := by
  intro key t hget
  obtain ⟨a, hd, j, other, hsame, hmeans⟩ := h key t hget
  refine ⟨a, hd, j, other, hsame, ?_⟩
  -- options are not part of what a key means
  by_cases hj : j = i
  · subst hj
    simpa [step, Engine.Means, Engine.sourceOf?, Engine.markupOf] using hmeans
  · simpa [step, hj] using hmeans

omit [DecidableEq ι] in
theorem settledOn_of_ne_clear {i : ι} {r : Request} (hr : r ≠ .clear) :
    g.settledOn d (.ask i r) = (g.usedIn? (.ask i r)).or d := by
  cases r <;> first | rfl | exact absurd rfl hr

omit [DecidableEq ι] in
/-- A request leaves nothing in the store but what is from the dialect it is settled on then. -/
theorem all_serve {i : ι} {r : Request} (h : g.Within d)
    (hused : ∀ a b, d = some a → g.usedIn? (.ask i r) = some b → a = b) :
    ((g.engine i).serve r).2.store.All fun key t =>
      ∃ a, g.settledOn d (.ask i r) = some a ∧ g.Origin a key t := by
  have hbefore : (g.engine i).store.All fun key t => ∃ a, d = some a ∧ g.Origin a key t := h
  by_cases hclear : r = .clear
  · subst hclear
    exact Store.all_empty
  rw [settledOn_of_ne_clear hclear]
  cases hcompiles : r.compiles with
  | false => simpa [usedIn?, hcompiles] using Engine.all_serve_of_not_compiles hbefore hcompiles
  | true =>
    cases hcache : (g.engines i).options.cache with
    | false =>
      -- the store is left as it is
      have hnothing : (g.engine i).Upholds fun key t => ∃ a, d = some a ∧ g.Origin a key t :=
        fun hon => absurd (hcache.symm.trans hon) nofun
      simpa [usedIn?, hcache] using hnothing.serve hbefore r
    | true =>
      have huse : g.usedIn? (.ask i r) = some (g.engines i).options.dialect := by
        simp [usedIn?, hcache, hcompiles]
      rw [huse, Option.some_or]
      refine Engine.Upholds.serve ?_ (fun key t hget => ?_) r
      · intro _ key source t hsource ht other hsame
        exact ⟨_, rfl, i, key, hsame, Engine.means_iff.2 ⟨source, hsource, ht⟩⟩
      · obtain ⟨a, hd, horigin⟩ := h key t hget
        obtain rfl := hused a _ hd huse
        exact ⟨_, rfl, horigin⟩

theorem within_ask {i : ι} {r : Request} (h : g.Within d)
    (hused : ∀ a b, d = some a → g.usedIn? (.ask i r) = some b → a = b) :
    (g.step (.ask i r)).Within (g.settledOn d (.ask i r)) := by
  intro key t hget
  obtain ⟨a, hd, j, other, hsame, hmeans⟩ := all_serve h hused key t hget
  refine ⟨a, hd, j, other, hsame, ?_⟩
  by_cases hj : j = i
  · subst hj
    have hkept : (((g.engine j).serve r).2.store.get? other).isSome := by
      rw [Store.get?_congr _ hsame]
      exact Option.isSome_of_eq_some hget
    have hmeans : (g.engine j).Means a other t := hmeans
    simpa [step] using hmeans.serve r hkept
  · simpa [step, hj] using hmeans

theorem Within.step {m : Move ι} (h : g.Within d)
    (hused : ∀ a b, d = some a → g.usedIn? m = some b → a = b) :
    (g.step m).Within (g.settledOn d m) := by
  cases m with
  | configure i options => exact within_configure h i options
  | ask i r => exact within_ask h hused

/-- Before each of the moves the store is settled on a dialect, and the move uses it in this one. -/
theorem within_after {m : Move ι} (h : g.Within d) (ms : List (Move ι))
    (hsettled : g.Settled d (ms ++ [m])) :
    ∃ d', (g.after ms).Within d' ∧ ∀ a b, d' = some a → (g.after ms).usedIn? m = some b → a = b := by
  induction ms generalizing g d with
  | nil => exact ⟨d, h, hsettled.1⟩
  | cons first ms ih => exact ih (h.step hsettled.1) hsettled.2

/-- While the store is settled, an engine is given templates that are in the dialect of the options it has
    at that moment: what a key for the template means in this dialect, to it or to another engine. -/
theorem served_in_own_dialect {g : Sharing ι} (hstore : g.store = {}) (ms : List (Move ι)) (i : ι)
    (r : Request) (hsettled : g.Settled none (ms ++ [.ask i r])) {key : StoreKey}
    (hkey : r.key? = some key) {t : Template}
    (ht : (((g.after ms).engine i).serve r).1 = .template (.ok t)) :
    (g.after ms).Origin ((g.after ms).engines i).options.dialect key t := by
  have hwithin : g.Within none := by
    rw [Within, hstore]
    exact Store.all_empty
  obtain ⟨d, hafter, hused⟩ := within_after hwithin ms hsettled
  rcases Engine.template_serve_cases hkey ht with ⟨hcache, hget⟩ | hmeans
  · obtain ⟨a, hd, horigin⟩ := hafter key t hget
    have huse : (g.after ms).usedIn? (.ask i r) = some ((g.after ms).engines i).options.dialect := by
      have hcompiles : r.compiles = true := by cases r <;> first | rfl | cases hkey
      simp only [usedIn?, hcompiles, Bool.and_true]
      exact if_pos hcache
    rwa [hused a _ hd huse] at horigin
  · exact ⟨i, key, StoreKey.same_refl key, hmeans⟩

/-- An engine that shares its store with no other. -/
def lone : Sharing Unit := ⟨fun _ => { loader := .memory [] }, {}⟩

/-- Options under which no element may stand in another. -/
def flat : EngineSettings := { maxDepth := 1 }

theorem compiles_of_toBool {d : Dialect} {markup : String}
    (h : (Template.compile d markup).toBool = true) : ∃ t, Template.compile d markup = .ok t := by
  cases ht : Template.compile d markup with
  | ok t => exact ⟨t, rfl⟩
  | error err =>
    rw [ht] at h
    cases h

/-- New options may be followed by a request when the store was emptied after them. -/
theorem served_in_own_dialect_after_clear :
    let ms : List (Move Unit) :=
      [.ask () (.compile (.inline "<a><b></b></a>")), .configure () flat, .ask () .clear]
    lone.Settled none (ms ++ [.ask () (.compile (.inline "<a></a>"))]) ∧
      ∃ t, (((lone.after ms).engine ()).serve (.compile (.inline "<a></a>"))).1 = .template (.ok t) ∧
        (lone.after ms).Origin ((lone.after ms).engines ()).options.dialect (.inline "<a></a>") t := by
  intro ms
  have hsettled : lone.Settled none (ms ++ [.ask () (.compile (.inline "<a></a>"))]) :=
    ⟨nofun, nofun, nofun, nofun, trivial⟩
  obtain ⟨t, ht⟩ : ∃ t, Template.compile flat.dialect "<a></a>" = .ok t :=
    compiles_of_toBool (by decide +kernel)
  have hserved : (((lone.after ms).engine ()).serve (.compile (.inline "<a></a>"))).1 =
      .template (.ok t) := congrArg Reply.template (Engine.answer_compile_inline rfl ht)
  exact ⟨hsettled, t, hserved, served_in_own_dialect rfl ms () _ hsettled rfl hserved⟩

/-- Without that, an engine is served what it would refuse under its new options. -/
theorem served_in_old_dialect :
    let g := lone.after [.ask () (.compile (.inline "<a><b></b></a>")), .configure () flat]
    (∃ t, ((g.engine ()).serve (.compile (.inline "<a><b></b></a>"))).1 = .template (.ok t)) ∧
      ∀ t, Template.compile (g.engines ()).options.dialect "<a><b></b></a>" ≠ .ok t := by
  intro g
  obtain ⟨t, ht⟩ : ∃ t, Template.compile ({} : EngineSettings).dialect "<a><b></b></a>" = .ok t :=
    compiles_of_toBool (by decide +kernel)
  have hfresh : (lone.engine ()).compileFresh (.inline "<a><b></b></a>") = .ok t :=
    Engine.compileFresh_inline ht
  have hfirst :=
    Engine.compileUnder_of_get?_eq_none rfl (Store.get?_empty (.inline "<a><b></b></a>")) hfresh
  have hkept : g.store.get? (.inline "<a><b></b></a>") = some t := by
    have hstore : g.store = Store.insert {} (.inline "<a><b></b></a>") t := congrArg Prod.snd hfirst
    rw [hstore, Store.get?_insert, if_pos (StoreKey.same_refl _)]
  have hcache : (g.engine ()).options.cache = true := rfl
  have hserved := Engine.compileUnder_of_get?_eq_some hcache hkept (.inline "<a><b></b></a>")
  refine ⟨⟨t, congrArg Reply.template (congrArg Prod.fst hserved)⟩, ?_⟩
  have hrefused : (Template.compile flat.dialect "<a><b></b></a>").toBool = false := by
    decide +kernel
  intro t' ht'
  rw [show Template.compile flat.dialect "<a><b></b></a>" = .ok t' from ht'] at hrefused
  cases hrefused

end Sharing

end Stencil
