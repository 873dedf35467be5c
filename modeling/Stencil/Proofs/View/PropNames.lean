import Stencil.Proofs.Expression.VariableNames
import Stencil.Proofs.Value.Proper
import Stencil.View.Component
import Stencil.Template.Parser
/-
  Props, and the names by which a component reads them.

  Many names of attributes become one name without hyphens.  A prop is bound under that name if it is one
  of a variable, and a name that is one already has no hyphen to lose, so there is no other key.  The main
  statement is that the keys are the names of this kind, that a component can write each of
  them as a variable, and that the last attribute for a key gives it its value.
-/

namespace Stencil

/-! ## Names without hyphens -/

namespace Html

theorem dropHyphens_eq_self {cs : List Char} (h : ∀ c ∈ cs, c ≠ '-') (started : Bool) :
    dropHyphens started false cs = cs := by
  induction cs generalizing started with
  | nil => rfl
  | cons c cs ih =>
    obtain ⟨hc, hcs⟩ := List.forall_mem_cons.1 h
    rw [dropHyphens, if_neg (by simpa using hc), ih hcs]
    rfl

/-- The name of a variable has no hyphens. -/
theorem camelCase_of_isVariableName {name : String} (h : isVariableName name = true) :
    camelCase name = name := by
  have hname := isVariableName_iff.1 h
  have hhyphen : ∀ c ∈ name.toList, c ≠ '-' := by
    rintro c hc rfl
    have hchar := hname.isNameChar '-' hc
    revert hchar
    decide
  rw [camelCase, dropHyphens_eq_self hhyphen, String.ofList_toList]

end Html

namespace Ordered

variable {α : Type}

theorem mem_keys_iff {m : Ordered α} {key : String} : key ∈ keys m ↔ ∃ v, get? m key = some v := by
  constructor
  · intro h
    induction m with
    | nil => cases h
    | cons pair rest ih =>
      obtain ⟨k, v⟩ := pair
      by_cases hk : k = key
      · exact ⟨v, if_pos hk⟩
      · obtain ⟨w, hw⟩ := ih ((List.mem_cons.1 h).resolve_left (Ne.symm hk))
        exact ⟨w, (if_neg hk).trans hw⟩
  · rintro ⟨v, hv⟩
    exact mem_keys_of_mem (mem_of_get?_eq_some hv)

end Ordered

namespace Props

variable {evaluate : Evaluator} {scope : Scope}

/-- What an attribute hands over: true for a name alone, its text with the expressions replaced, or the value
    of its expression, both in the scope of the caller. -/
inductive HandsOver (evaluate : Evaluator) (scope : Scope) : AttributeValue → Value → Prop where
  | bare : HandsOver evaluate scope .bare (.bool true)
  | literal {text s : String} (h : Interpolation.interpolate evaluate scope text = .ok s) :
      HandsOver evaluate scope (.literal text) (.text s)
  | expression {source : String} {v : Value} (h : evaluate source scope = .ok v) :
      HandsOver evaluate scope (.expression source) v

/-- An attribute is the last of those whose name without hyphens is the key. -/
def LastFor (key : String) (attributes : List Attribute) (a : Attribute) : Prop :=
  Html.camelCase a.name = key ∧ ∃ before after, attributes = before ++ a :: after ∧
    ∀ b ∈ after, Html.camelCase b.name ≠ key

theorem LastFor.cons {key : String} {attributes : List Attribute} {a : Attribute}
    (h : LastFor key attributes a) (first : Attribute) : LastFor key (first :: attributes) a := by
  obtain ⟨hkey, before, after, rfl, hafter⟩ := h
  exact ⟨hkey, first :: before, after, rfl, hafter⟩

/-! ## Binding -/

theorem handsOver_of_value {x : AttributeValue} {v : Value} (h : value evaluate scope x = .ok v) :
    HandsOver evaluate scope x v := by
  cases x with
  | bare =>
    obtain rfl := Except.ok.inj h
    exact .bare
  | expression source => exact .expression h
  | literal text =>
    rw [value] at h
    cases htext : Interpolation.interpolate evaluate scope text with
    | error err =>
      rw [htext] at h
      cases h
    | ok s =>
      rw [htext] at h
      obtain rfl := Except.ok.inj h
      exact .literal htext

/-- A prop has the name without hyphens as its only key. -/
theorem bind_eq (props : Bindings) (name : String) (v : Value) :
    bind props name v = if Html.isVariableName (Html.camelCase name) then
      Ordered.put props (Html.camelCase name) v else props := by
  have hwritten : (Html.isVariableName name && Html.camelCase name != name) = false := by
    rw [Bool.and_eq_false_iff]
    cases hname : Html.isVariableName name with
    | false => exact .inl rfl
    | true => exact .inr (by rw [Html.camelCase_of_isVariableName hname, bne_self_eq_false])
  rw [bind, hwritten]
  rfl

theorem get?_bind (props : Bindings) (name : String) (v : Value) {key : String} :
    Ordered.get? (bind props name v) key =
      if Html.isVariableName key = true ∧ Html.camelCase name = key then some v
      else Ordered.get? props key := by
  rw [bind_eq]
  by_cases hkey : Html.camelCase name = key
  · subst hkey
    by_cases hname : Html.isVariableName (Html.camelCase name) = true
    · rw [if_pos hname, if_pos ⟨hname, rfl⟩, Ordered.get?_put, if_pos rfl]
    · rw [if_neg hname, if_neg (fun hboth => hname hboth.1)]
  · rw [if_neg (fun hboth : _ ∧ _ => hkey hboth.2)]
    split
    · rw [Ordered.get?_put, if_neg hkey]
    · rfl

/-- The last attribute for a key gives it its value, and without one the key keeps the value it had. -/
theorem get?_bindFrom {props made : Bindings} {attributes : List Attribute}
    (h : bindFrom evaluate scope props attributes = .ok made) {key : String}
    (hkey : Html.isVariableName key = true) :
    (∃ a v, LastFor key attributes a ∧ HandsOver evaluate scope a.value v ∧
      Ordered.get? made key = some v) ∨
    ((∀ a ∈ attributes, Html.camelCase a.name ≠ key) ∧
      Ordered.get? made key = Ordered.get? props key) := by
  induction attributes generalizing props with
  | nil =>
    obtain rfl := Except.ok.inj h
    exact .inr ⟨fun _ ha => absurd ha List.not_mem_nil, rfl⟩
  | cons a more ih =>
    obtain ⟨v, hv, hmore⟩ := Template.Reader.bind_eq_ok h
    rcases ih hmore with ⟨b, w, hlast, hw, hget⟩ | ⟨hnone, hget⟩
    · exact .inl ⟨b, w, hlast.cons a, hw, hget⟩
    · rw [get?_bind] at hget
      by_cases ha : Html.camelCase a.name = key
      · rw [if_pos ⟨hkey, ha⟩] at hget
        exact .inl ⟨a, v, ⟨ha, [], more, rfl, hnone⟩, handsOver_of_value hv, hget⟩
      · rw [if_neg (fun hboth => ha hboth.2)] at hget
        exact .inr ⟨List.forall_mem_cons.2 ⟨ha, hnone⟩, hget⟩

/-- No key becomes a prop that is not the name of a variable. -/
theorem get?_bindFrom_of_not {props made : Bindings} {attributes : List Attribute}
    (h : bindFrom evaluate scope props attributes = .ok made) {key : String}
    (hkey : ¬ Html.isVariableName key = true) : Ordered.get? made key = Ordered.get? props key := by
  induction attributes generalizing props with
  | nil =>
    obtain rfl := Except.ok.inj h
    rfl
  | cons a more ih =>
    obtain ⟨v, hv, hmore⟩ := Template.Reader.bind_eq_ok h
    rw [ih hmore, get?_bind, if_neg fun hboth => hkey hboth.1]

theorem distinct_bindFrom {props made : Bindings} {attributes : List Attribute}
    (h : bindFrom evaluate scope props attributes = .ok made) (hprops : Ordered.Distinct props) :
    Ordered.Distinct made := by
  induction attributes generalizing props with
  | nil =>
    obtain rfl := Except.ok.inj h
    exact hprops
  | cons a more ih =>
    obtain ⟨v, hv, hmore⟩ := Template.Reader.bind_eq_ok h
    refine ih hmore ?_
    rw [bind_eq]
    split
    · exact Ordered.distinct_put hprops _ _
    · exact hprops

/-! ## The props of a component -/

section

variable {attributes : List Attribute} {props : Bindings}
  (h : ofAttributes evaluate scope attributes = .ok props) {key : String}

include h

theorem isVariableName_of_get? {v : Value} (hv : Ordered.get? props key = some v) :
    Html.isVariableName key = true := by
  by_contra hkey
  rw [get?_bindFrom_of_not h hkey] at hv
  cases hv

/-- The value of a prop is what the last attribute for its key hands over. -/
theorem exists_lastFor {v : Value} (hv : Ordered.get? props key = some v) :
    ∃ a, LastFor key attributes a ∧ HandsOver evaluate scope a.value v := by
  rcases get?_bindFrom h (isVariableName_of_get? h hv) with ⟨a, w, hlast, hw, hget⟩ | ⟨-, hget⟩
  · obtain rfl := Option.some.inj (hget.symm.trans hv)
    exact ⟨a, hlast, hw⟩
  · rw [hget] at hv
    cases hv

theorem mem_keys_props_iff : key ∈ Ordered.keys props ↔
    ∃ a ∈ attributes, Html.camelCase a.name = key ∧ Html.isVariableName key = true := by
  rw [Ordered.mem_keys_iff]
  constructor
  · rintro ⟨v, hv⟩
    obtain ⟨a, ⟨hkey, before, after, rfl, -⟩, -⟩ := exists_lastFor h hv
    exact ⟨a, List.mem_append_right _ List.mem_cons_self, hkey, isVariableName_of_get? h hv⟩
  · rintro ⟨a, ha, hkey, hname⟩
    rcases get?_bindFrom h hname with ⟨b, v, -, -, hget⟩ | ⟨hnone, -⟩
    · exact ⟨v, hget⟩
    · exact absurd hkey (hnone a ha)

end

/-- The keys of props are the names without hyphens that can be names of variables, each once.  A component
    reads each of them as the variable of that name, as it reads no other name, and what it reads is what
    the last attribute for the key hands over. -/
theorem props_read_back {evaluate : Evaluator} {scope : Scope} {attributes : List Attribute}
    {props : Bindings} (h : ofAttributes evaluate scope attributes = .ok props) :
    Ordered.Distinct props ∧
    (∀ key, key ∈ Ordered.keys props ↔
      ∃ a ∈ attributes, Html.camelCase a.name = key ∧ Html.isVariableName key = true) ∧
    (∀ key ∈ Ordered.keys props, Expr.parse ("$" ++ key) = .ok (.variable key)) ∧
    (∀ name, Html.isVariableName name = true ↔ Expr.parse ("$" ++ name) = .ok (.variable name)) ∧
    ∀ key ∈ Ordered.keys props, ∃ v, Ordered.get? props key = some v ∧
      Functions.builtin.evaluator ("$" ++ key) (Scope.root props) = .ok v ∧
      ∃ a, LastFor key attributes a ∧ HandsOver evaluate scope a.value v := by
  have hparse (key : String) (hkey : key ∈ Ordered.keys props) :
      Expr.parse ("$" ++ key) = .ok (.variable key) := by
    obtain ⟨a, -, -, hname⟩ := (mem_keys_props_iff h).1 hkey
    exact (Expr.parse_dollar_iff key).1 hname
  refine ⟨distinct_bindFrom h List.nodup_nil, fun key => mem_keys_props_iff h, hparse,
    Expr.parse_dollar_iff, fun key hkey => ?_⟩
  obtain ⟨v, hv⟩ := Ordered.mem_keys_iff.1 hkey
  refine ⟨v, hv, ?_, exists_lastFor h hv⟩
  rw [Functions.evaluator_of_parse (hparse key hkey)]
  simp [Scope.get, Scope.lookup, Scope.root, Scope.lookupIn, hv]

/-- Two attributes for one key, of which the later counts, and one whose name is not that of a variable. -/
theorem props_read_back_twice :
    let scope := Scope.root [("u", .text "Ada")]
    let attributes : List Attribute :=
      [⟨"dataUser", .bare, default⟩, ⟨"data-user", .expression "$u", default⟩, ⟨"@click", .bare, default⟩]
    ofAttributes Functions.builtin.evaluator scope attributes = .ok [("dataUser", .text "Ada")] ∧
      Expr.parse "$dataUser" = .ok (.variable "dataUser") ∧
      ∃ a, LastFor "dataUser" attributes a ∧
        HandsOver Functions.builtin.evaluator scope a.value (.text "Ada") := by
  intro scope attributes
  have hparse : Expr.parse "$u" = .ok (.variable "u") := by cbv
  have hvalue : Functions.builtin.evaluator "$u" scope = .ok (.text "Ada") :=
    Functions.evaluator_of_parse hparse scope
  have hprops : ofAttributes Functions.builtin.evaluator scope attributes
      = .ok [("dataUser", .text "Ada")] := by
    simp only [ofAttributes, attributes, bindFrom, value, hvalue]
    rfl
  obtain ⟨-, -, hread, -, hvalues⟩ := props_read_back hprops
  obtain ⟨v, hv, -, hlast⟩ := hvalues "dataUser" List.mem_cons_self
  obtain rfl : Value.text "Ada" = v := Option.some.inj hv
  exact ⟨hprops, hread "dataUser" List.mem_cons_self, hlast⟩

end Props

end Stencil
