import Stencil.Expression.Eval
import Stencil.Proofs.Expression.Accepts
import Stencil.Proofs.Value.Markup
import Stencil.Proofs.Value.Proper
/-
  What is true of the values in a scope is true of the values of expressions.

  The literals of an expression are numbers, texts and constants, and the built-in functions answer with
  numbers, texts and truth values.  All else that an expression computes is taken from the scope, put into
  lists and maps, or made by an operator that gives a number, a text or a truth value; and a map is made by
  putting in one key after the other, so it has none twice.  So every inherited property of the values in
  the scope is one of the value.

  This is by induction on the expression; that the literals are as said is by induction on its derivation.
  Two properties are of use: what is true of all markup in values, by which evaluating makes no markup, and
  that values are proper.
-/

namespace Stencil

/-! ## Results with a property -/

/-- A result has a property if it is a value. -/
def Yields {ε α : Type} (R : α → Prop) (x : Except ε α) : Prop := ∀ a, x = .ok a → R a

namespace Yields

variable {ε α β : Type} {R : α → Prop} {S : β → Prop} {x : Except ε α}

theorem ok {a : α} (h : R a) : Yields R (.ok a : Except ε α) := by
  intro b hb
  obtain rfl := Except.ok.inj hb
  exact h

theorem error {e : ε} : Yields R (.error e : Except ε α) := by
  intro b hb
  cases hb

theorem bind {f : α → Except ε β} (hx : Yields R x) (hf : ∀ a, R a → Yields S (f a)) :
    Yields S (x >>= f) := by
  cases x with
  | ok a => exact hf a (hx a rfl)
  | error e => exact error

theorem map {f : α → β} (hx : Yields R x) (hf : ∀ a, R a → S (f a)) : Yields S (x.map f) := by
  cases x with
  | ok a => exact ok (hf a (hx a rfl))
  | error e => exact error

theorem mapError {δ : Type} (f : ε → δ) (hx : Yields R x) : Yields R (x.mapError f) := by
  cases x with
  | ok a => exact ok (hx a rfl)
  | error e => exact error

end Yields

/-! ## Literals -/

namespace Expr

mutual

/-- The literals of an expression. -/
def literals : Expr → List Value
  | .literal v => [v]
  | .variable _ => []
  | .property target _ => literals target
  | .index target key => literals target ++ literals key
  | .call _ arguments => literalsAll arguments
  | .array items => literalsItems items
  | .unary _ operand => literals operand
  | .binary _ left right => literals left ++ literals right
  | .ternary condition yes no => literals condition ++ (literals yes ++ literals no)
  | .orElse condition no => literals condition ++ literals no
termination_by structural e => e

/-- The literals of expressions. -/
def literalsAll : List Expr → List Value
  | [] => []
  | e :: es => literals e ++ literalsAll es
termination_by structural es => es

/-- The literals of the items of an array. -/
def literalsItems : List ArrayMember → List Value
  | [] => []
  | item :: items => literalsItem item ++ literalsItems items
termination_by structural items => items

/-- The literals of an item of an array. -/
def literalsItem : ArrayMember → List Value
  | .plain e => literals e
  | .keyed key e => literals key ++ literals e
termination_by structural item => item

end

end Expr

namespace Grammar

variable {R : Value → Prop}

theorem constant_of_isConstant (hR : Value.Inherited R) {name : String} {v : Value}
    (h : IsConstant name v) : R v := by
  cases h with
  | yes => exact hR.bool true
  | no => exact hR.bool false
  | null => exact hR.null

mutual

/-- Every literal has the property. -/
theorem Derives.literals (hR : Value.Inherited R) {l : Level} {ts : List Token} {e : Expr} :
    Derives l ts e → ∀ v ∈ e.literals, R v
  | .ternary ha hb hc =>
    List.forall_mem_append.2 ⟨ha.literals hR, List.forall_mem_append.2 ⟨hb.literals hR, hc.literals hR⟩⟩
  | .orElse ha hb => List.forall_mem_append.2 ⟨ha.literals hR, hb.literals hR⟩
  | .choice h => h.literals hR
  | .coalesce ha hb => List.forall_mem_append.2 ⟨ha.literals hR, hb.literals hR⟩
  | .fallback h => h.literals hR
  | .operator ha _ hb => List.forall_mem_append.2 ⟨ha.literals hR, hb.literals hR⟩
  | .operand h => h.literals hR
  | .not h => h.literals hR
  | .negate h => h.literals hR
  | .plus h => h.literals hR
  | .signed h => h.literals hR
  | .property h _ _ => h.literals hR
  | .index ha hb => List.forall_mem_append.2 ⟨ha.literals hR, hb.literals hR⟩
  | .access h => h.literals hR
  | .variable => List.forall_mem_nil _
  | .ownName _ => List.forall_mem_nil _
  | .int => List.forall_mem_singleton.2 (hR.int _)
  | .float => List.forall_mem_singleton.2 (hR.float _)
  | .string => List.forall_mem_singleton.2 (hR.text _)
  | .constant h => List.forall_mem_singleton.2 (constant_of_isConstant hR h)
  | .paren h => h.literals hR
  | .array h => h.literals hR
  | .call h => h.literals hR

theorem ArgumentList.literals (hR : Value.Inherited R) {ts : List Token} {es : List Expr} :
    ArgumentList ts es → ∀ v ∈ Expr.literalsAll es, R v
  | .none => List.forall_mem_nil _
  | .some h => h.literals hR

theorem MoreArguments.literals (hR : Value.Inherited R) {ts : List Token} {es : List Expr} :
    MoreArguments ts es → ∀ v ∈ Expr.literalsAll es, R v
  | .last h => List.forall_mem_append.2 ⟨h.literals hR, List.forall_mem_nil _⟩
  | .more ha hb => List.forall_mem_append.2 ⟨ha.literals hR, hb.literals hR⟩

theorem ItemList.literals (hR : Value.Inherited R) {ts : List Token} {items : List ArrayMember} :
    ItemList ts items → ∀ v ∈ Expr.literalsItems items, R v
  | .none => List.forall_mem_nil _
  | .last h => List.forall_mem_append.2 ⟨h.literals hR, List.forall_mem_nil _⟩
  | .more ha hb => List.forall_mem_append.2 ⟨ha.literals hR, hb.literals hR⟩

theorem Item.literals (hR : Value.Inherited R) {ts : List Token} {item : ArrayMember} :
    Item ts item → ∀ v ∈ Expr.literalsItem item, R v
  | .plain h => h.literals hR
  | .keyed ha hb => List.forall_mem_append.2 ⟨ha.literals hR, hb.literals hR⟩

end

end Grammar

/-- Every literal of an expression that was read has the property. -/
theorem Expr.literals_of_parse {R : Value → Prop} (hR : Value.Inherited R) {source : String} {e : Expr}
    (h : Expr.parse source = .ok e) : ∀ v ∈ e.literals, R v := by
  unfold Expr.parse at h
  split at h
  · cases h
  · next lexemes _ =>
    split at h
    · cases h
    · next e' hread =>
      obtain rfl := Except.ok.inj h
      exact ((ofLexemes_eq_ok_iff _).1 hread).literals hR

/-! ## Functions -/

namespace Functions

/-- What a function answers has the property if its arguments have it. -/
def Keeps (R : Value → Prop) (f : Function) : Prop := ∀ vs, (∀ v ∈ vs, R v) → Yields R (f vs)

variable {R : Value → Prop}

theorem keeps_checked {name : String} {arity : Arity} {f : Function} (h : Keeps R f) :
    Keeps R (checked name arity f) := by
  intro vs hvs
  unfold checked
  split
  · exact h vs hvs
  · exact .error

section

variable (hR : Value.Inherited R)

include hR

theorem keeps_unary {name : String} {f : Value → Except EvalError Value} (h : ∀ v, Yields R (f v)) :
    Keeps R (unary name f) := by
  refine keeps_checked fun vs _ => ?_
  cases vs with
  | nil => exact .ok hR.null
  | cons v _ => exact h v

theorem keeps_onText {name : String} {f : List Char → List Char} : Keeps R (onText name f) :=
  keeps_unary hR fun _ => .ok (hR.text _)

theorem yields_count (v : Value) : Yields R (count v) := by
  unfold count
  split
  · exact .ok (hR.int _)
  · exact .ok (hR.int _)
  · exact .error

theorem yields_implode (separator : String) (v : Value) : Yields R (implode separator v) := by
  unfold implode
  split
  · exact .ok (hR.text _)
  · exact .error

/-- A built-in function answers with a number, a text, a truth value or null. -/
theorem keeps_builtinList : ∀ entry ∈ builtinList, Keeps R entry.2 := by
  have htext : ∀ name f, Keeps R (onText name f) := fun _ _ => keeps_onText hR
  simp only [builtinList, List.forall_mem_cons]
  refine ⟨htext _ _, htext _ _, htext _ _, htext _ _, htext _ _,
    keeps_unary hR fun _ => .ok (hR.int _), keeps_unary hR (yields_count hR),
    keeps_checked fun vs _ => ?implode, keeps_unary hR fun _ => .ok (hR.text _),
    keeps_checked fun vs _ => ?inArray, keeps_unary hR fun _ => .ok (hR.bool _),
    keeps_checked fun _ _ => .ok (hR.bool _), keeps_unary hR fun _ => .ok (hR.bool _),
    fun _ h => absurd h List.not_mem_nil⟩
  case implode =>
    split
    · exact yields_implode hR _ _
    · exact yields_implode hR _ _
    · exact .ok hR.null
  case inArray =>
    split
    · exact .ok (hR.bool _)
    · exact .ok hR.null

end

theorem keeps_of_get? {fs : Functions} {entries : List (String × Function)}
    (hfs : ∀ name f, fs.get? name = some f → Keeps R f) (hentries : ∀ entry ∈ entries, Keeps R entry.2)
    {name : String} {f : Function}
    (h : (entries.foldl (fun fs entry => fs.register entry.1 entry.2) fs).get? name = some f) :
    Keeps R f := by
  induction entries generalizing fs with
  | nil => exact hfs name f h
  | cons entry entries ih =>
    obtain ⟨hentry, hrest⟩ := List.forall_mem_cons.1 hentries
    refine ih (fun other g hg => ?_) hrest h
    unfold register get? at hg
    rw [Ordered.get?_put] at hg
    split at hg
    · obtain rfl := Option.some.inj hg
      exact hentry
    · exact hfs other g hg

theorem keeps_builtin (hR : Value.Inherited R) {name : String} {f : Function}
    (h : builtin.get? name = some f) : Keeps R f :=
  keeps_of_get? (fun _ _ h => by cases h) (keeps_builtinList hR) h

end Functions

/-! ## Evaluation -/

namespace Expr

variable {R : Value → Prop} {fs : Functions} {scope : Scope}

theorem yields_apply (hR : Value.Inherited R) {op : BinaryOp} {l r : Value} (hl : R l) (hr : R r) :
    Yields R (op.apply l r) := by
  cases op with
  | coalesce =>
    refine .ok ?_
    split
    · exact hr
    · exact hl
  | concat => exact .ok (hR.text _)
  | arithmetic op => exact fun v h => hR.arithmetic h
  | _ => exact .ok (hR.bool _)

/-- The functions and the scope that expressions are evaluated with bring in values with the property
    only. -/
structure Setting (R : Value → Prop) (fs : Functions) (scope : Scope) : Prop where
  inherited : Value.Inherited R
  functions : ∀ name f, fs.get? name = some f → Functions.Keeps R f
  scope : ∀ name, R (scope.get name)

namespace Setting

mutual

/-- What is true of the values in the scope and of the literals is true of the value. -/
theorem eval (h : Setting R fs scope) (e : Expr) (he : ∀ v ∈ e.literals, R v) :
    Yields R (Expr.eval fs scope e) := by
  cases e with
  | literal v => exact .ok (he v List.mem_cons_self)
  | «variable» name => exact .ok (h.scope name)
  | property target name =>
    rw [Expr.eval]
    exact (h.eval target he).bind fun v hv => .ok (h.inherited.property hv name)
  | index target key =>
    obtain ⟨htarget, hkey⟩ := List.forall_mem_append.1 he
    rw [Expr.eval]
    exact (h.eval target htarget).bind fun v hv => (h.eval key hkey).bind fun k _ =>
      .ok (h.inherited.index hv k)
  | call function arguments =>
    rw [Expr.eval]
    split
    · exact .error
    · next f hf => exact (h.evalAll arguments he).bind fun vs hvs => h.functions function f hf vs hvs
  | array items =>
    rw [Expr.eval]
    split
    · exact (h.evalPlain items he).bind fun vs hvs => .ok (h.inherited.list hvs)
    · have hnone : ∀ entry ∈ ([] : Ordered Value), R entry.2 := fun _ h => absurd h List.not_mem_nil
      refine (h.evalKeyed items he 0 [] List.nodup_nil hnone).bind fun entries hentries => ?_
      exact .ok (h.inherited.map hentries.1 hentries.2)
  | unary op operand =>
    rw [Expr.eval]
    refine (h.eval operand he).bind fun v hv => ?_
    cases op with
    | not => exact .ok (h.inherited.bool _)
    | negate => exact fun w hw => h.inherited.negate hw
  | binary op left right =>
    obtain ⟨hleft, hright⟩ := List.forall_mem_append.1 he
    rw [Expr.eval]
    refine (h.eval left hleft).bind fun l hl => ?_
    split
    · exact yields_apply h.inherited hl h.inherited.null
    · exact (h.eval right hright).bind fun r hr => yields_apply h.inherited hl hr
  | ternary condition yes no =>
    obtain ⟨hcondition, hchoices⟩ := List.forall_mem_append.1 he
    obtain ⟨hyes, hno⟩ := List.forall_mem_append.1 hchoices
    rw [Expr.eval]
    refine (h.eval condition hcondition).bind fun c _ => ?_
    split
    · exact h.eval yes hyes
    · exact h.eval no hno
  | orElse condition no =>
    obtain ⟨hcondition, hno⟩ := List.forall_mem_append.1 he
    rw [Expr.eval]
    refine (h.eval condition hcondition).bind fun c hc => ?_
    split
    · exact .ok hc
    · exact h.eval no hno
termination_by structural e

theorem evalAll (h : Setting R fs scope) (es : List Expr) (hes : ∀ v ∈ literalsAll es, R v) :
    Yields (fun vs => ∀ v ∈ vs, R v) (Expr.evalAll fs scope es) := by
  cases es with
  | nil => exact .ok fun v hv => absurd hv List.not_mem_nil
  | cons e es =>
    obtain ⟨he, hmore⟩ := List.forall_mem_append.1 hes
    rw [Expr.evalAll]
    exact (h.eval e he).bind fun v hv => (h.evalAll es hmore).bind fun vs hvs =>
      .ok (List.forall_mem_cons.2 ⟨hv, hvs⟩)
termination_by structural es

theorem evalPlain (h : Setting R fs scope) (items : List ArrayMember)
    (hitems : ∀ v ∈ literalsItems items, R v) :
    Yields (fun vs => ∀ v ∈ vs, R v) (Expr.evalPlain fs scope items) := by
  cases items with
  | nil => exact .ok fun v hv => absurd hv List.not_mem_nil
  | cons item items =>
    obtain ⟨hitem, hmore⟩ := List.forall_mem_append.1 hitems
    cases item with
    | plain e =>
      rw [Expr.evalPlain]
      exact (h.eval e hitem).bind fun v hv => (h.evalPlain items hmore).bind fun vs hvs =>
        .ok (List.forall_mem_cons.2 ⟨hv, hvs⟩)
    | keyed key e =>
      rw [Expr.evalPlain]
      exact (h.eval e (List.forall_mem_append.1 hitem).2).bind fun v hv =>
        (h.evalPlain items hmore).bind fun vs hvs => .ok (List.forall_mem_cons.2 ⟨hv, hvs⟩)
termination_by structural items

theorem evalKeyed (h : Setting R fs scope) (items : List ArrayMember)
    (hitems : ∀ v ∈ literalsItems items, R v) (next : Nat) (entries : Ordered Value)
    (hkeys : Ordered.Distinct entries) (hentries : ∀ entry ∈ entries, R entry.2) :
    Yields (fun made : Ordered Value => Ordered.Distinct made ∧ ∀ entry ∈ made, R entry.2)
      (Expr.evalKeyed fs scope next entries items) := by
  cases items with
  | nil => exact .ok ⟨hkeys, hentries⟩
  | cons item items =>
    obtain ⟨hitem, hmore⟩ := List.forall_mem_append.1 hitems
    cases item with
    | plain e =>
      rw [Expr.evalKeyed]
      exact (h.eval e hitem).bind fun v hv => h.evalKeyed items hmore _ _
        (Ordered.distinct_put hkeys _ v) (Ordered.forall_mem_put hentries _ hv)
    | keyed key e =>
      obtain ⟨hkey, he⟩ := List.forall_mem_append.1 hitem
      rw [Expr.evalKeyed]
      exact (h.eval key hkey).bind fun k _ => (h.eval e he).bind fun v hv => h.evalKeyed items hmore _ _
        (Ordered.distinct_put hkeys _ v) (Ordered.forall_mem_put hentries _ hv)
termination_by structural items

end

end Setting

end Expr

namespace Functions

variable {scope : Scope}

/-- What is true of the values in the scope is true of what the built-in evaluator gives. -/
theorem yields_of_inherited {R : Value → Prop} (hR : Value.Inherited R) (hscope : ∀ name, R (scope.get name))
    (source : String) : Yields R (builtin.evaluator source scope) := by
  unfold evaluator
  cases he : Expr.parse source with
  | error err => exact .error
  | ok e =>
    have hsetting : Expr.Setting R builtin scope := ⟨hR, fun _ _ => keeps_builtin hR, hscope⟩
    exact hsetting.eval e (Expr.literals_of_parse hR he)

/-- A property of all markup in the scope is one of all markup in what the built-in evaluator gives. -/
theorem yields_builtin_evaluator {P : String → Prop} (hscope : scope.AllMarkup P) (source : String) :
    Yields (Value.AllMarkup P) (builtin.evaluator source scope) :=
  yields_of_inherited (Value.inherited_allMarkup P) hscope source

/-- Where all names mean proper values, expressions have proper values. -/
theorem yields_proper (hscope : ∀ name, (scope.get name).Proper) (source : String) :
    Yields Value.Proper (builtin.evaluator source scope) :=
  yields_of_inherited Value.inherited_proper hscope source

end Functions

end Stencil
