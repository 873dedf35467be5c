import Stencil.Proofs.Expression.Grammar
/-
  What is read is derived, and what is refused is refused at a token.

  A rule takes a front of its tokens when the front is derived by the grammar, or it fails at a place where
  some of its tokens are left: at the first of these, or at the end.  Rules put one behind the other take
  the fronts one behind the other, so each rule of the reader follows one rule of the grammar.
-/

namespace Stencil.Expr

open Grammar

/-! ## Taking a front -/

/-- A result takes a front of `ts` that is in the relation `D` to its value, or fails where a part of `ts`
    is left. -/
def Takes {bound : Nat} {α : Type} (finish : Nat) (ts : List Lexeme) (D : List Token → α → Prop) :
    Except SyntaxFailure (Parsed bound α) → Prop
  | .ok p => ∃ front, ts = front ++ p.rest ∧ D (tokens front) p.value
  | .error failure => ∃ rest, rest <:+ ts ∧ failure.1 = place finish rest

namespace Takes

variable {bound bound' : Nat} {α β : Type} {finish : Nat} {ts rest : List Lexeme}

/-- A rule that takes nothing more. -/
theorem ok {D : List Token → α → Prop} {value : α} {fits : ts.length < bound} (h : D [] value) :
    Takes finish ts D (.ok ⟨value, ts, fits⟩ : Except SyntaxFailure (Parsed bound α)) :=
  ⟨[], rfl, h⟩

theorem fail {D : List Token → α → Prop} {problem : SyntaxProblem} :
    Takes finish ts D (Expr.fail finish ts problem : Except SyntaxFailure (Parsed bound α)) :=
  ⟨ts, List.suffix_refl ts, rfl⟩

theorem refuse {D : List Token → α → Prop} :
    Takes finish ts D (Expr.refuse finish ts : Except SyntaxFailure (Parsed bound α)) :=
  ⟨ts, List.suffix_refl ts, rfl⟩

/-- A rule may begin behind a front that was taken already. -/
theorem skip {D : List Token → α → Prop} (front : List Lexeme)
    {x : Except SyntaxFailure (Parsed bound α)}
    (h : Takes finish rest (fun back value => D (tokens front ++ back) value) x) :
    Takes finish (front ++ rest) D x := by
  cases x with
  | error failure =>
    -- what is left of the back is left of the whole
    obtain ⟨left, hleft, hplace⟩ := h
    exact ⟨left, hleft.trans (List.suffix_append front rest), hplace⟩
  | ok p =>
    obtain ⟨back, rfl, hD⟩ := h
    refine ⟨front ++ back, by rw [List.append_assoc], ?_⟩
    rw [tokens_append]
    exact hD

/-- A rule may begin behind a token. -/
theorem behind {D : List Token → α → Prop} {lexeme : Lexeme}
    {x : Except SyntaxFailure (Parsed bound α)} (hts : ts = lexeme :: rest)
    (h : Takes finish rest (fun back value => D (lexeme.token :: back) value) x) :
    Takes finish ts D x := by
  subst hts
  exact skip [lexeme] h

/-- A rule, and then another one on what is left. -/
theorem bind {D : List Token → α → Prop} {D' : List Token → β → Prop}
    {x : Except SyntaxFailure (Parsed bound α)}
    {f : Parsed bound α → Except SyntaxFailure (Parsed bound' β)} (hx : Takes finish ts D x)
    (hf : ∀ p front, x = .ok p → ts = front ++ p.rest → D (tokens front) p.value →
      Takes finish p.rest (fun back value => D' (tokens front ++ back) value) (f p)) :
    Takes finish ts D' (x >>= f) := by
  cases hp : x with
  | error failure =>
    rw [hp] at hx
    exact hx
  | ok p =>
    rw [hp] at hx
    obtain ⟨front, hts, hD⟩ := hx
    rw [hts]
    exact skip front (hf p front hp hts hD)

theorem mono {D D' : List Token → α → Prop} {x : Except SyntaxFailure (Parsed bound α)}
    (h : Takes finish ts D x) (hD : ∀ front value, D front value → D' front value) :
    Takes finish ts D' x := by
  cases x with
  | error failure => exact h
  | ok p =>
    obtain ⟨front, hts, hp⟩ := h
    exact ⟨front, hts, hD _ _ hp⟩

end Takes

/-! ## Single tokens -/

theorem of_afterMark? {m : Mark} {ts : List Lexeme}
    {found : { rest : List Lexeme // rest.length < ts.length }} (h : afterMark? m ts = some found) :
    ∃ lexeme, lexeme.token = .mark m ∧ ts = lexeme :: found.1 := by
  unfold afterMark? at h
  split at h
  · split at h
    · next hm =>
      obtain rfl := Option.some.inj h
      exact ⟨_, by rw [hm], rfl⟩
    · cases h
  · cases h

/-- A rule may begin behind a mark. -/
theorem Takes.afterMark {bound : Nat} {α : Type} {finish : Nat} {m : Mark} {ts : List Lexeme}
    {D : List Token → α → Prop} {found : { rest : List Lexeme // rest.length < ts.length }}
    {x : Except SyntaxFailure (Parsed bound α)} (h : afterMark? m ts = some found)
    (hx : Takes finish found.1 (fun back value => D (.mark m :: back) value) x) :
    Takes finish ts D x := by
  obtain ⟨lexeme, hm, hts⟩ := of_afterMark? h
  refine .behind hts ?_
  rw [← hm] at hx
  exact hx

theorem of_nextOperator? {l : LeftLevel} {ts : List Lexeme} {op : BinaryOp}
    {found : { rest : List Lexeme // rest.length < ts.length }}
    (h : nextOperator? l ts = some (op, found)) :
    ∃ lexeme, Writes l lexeme.token op ∧ ts = lexeme :: found.1 := by
  unfold nextOperator? at h
  split at h
  · cases h
  · next lexeme rest =>
    obtain ⟨op', hop, heq⟩ := Option.map_eq_some_iff.1 h
    obtain ⟨rfl, rfl⟩ := Prod.mk.inj heq
    exact ⟨lexeme, writes_iff.2 hop, rfl⟩

theorem of_afterArrow? {ts : List Lexeme} {found : { rest : List Lexeme // rest.length < ts.length }}
    (h : afterArrow? ts = some found) : ∃ lexeme, IsArrow lexeme.token ∧ ts = lexeme :: found.1 := by
  unfold afterArrow? at h
  split at h
  · next hfound =>
    obtain rfl := Option.some.inj h
    obtain ⟨lexeme, ht, hts⟩ := of_afterMark? hfound
    exact ⟨lexeme, ht ▸ .arrow, hts⟩
  · obtain ⟨lexeme, ht, hts⟩ := of_afterMark? h
    exact ⟨lexeme, ht ▸ .nullsafe, hts⟩

theorem takes_memberName (finish : Nat) (ts : List Lexeme) :
    Takes finish ts (fun front name => front = [.ident name]) (memberName finish ts) := by
  unfold memberName
  split
  · next name start text rest =>
    split
    · exact ⟨rest, List.suffix_cons _ _, rfl⟩
    · exact ⟨[⟨.ident name, start, text⟩], rfl, rfl⟩
  · exact .fail

/-- No arrow follows an atom that is the bare `$this`: the arrow would belong to the atom. -/
theorem afterArrow?_of_readAtom {finish : Nat} {front ts : List Lexeme} {p : Parsed ts.length Expr}
    (hread : readAtom finish ts = .ok p) (hts : ts = front ++ p.rest)
    (hthis : tokens front = [.variable "this"]) : afterArrow? p.rest = none := by
  obtain ⟨lexeme, rfl, hlexeme⟩ := tokens_eq_singleton hthis
  cases ts with
  | nil => cases hts
  | cons first rest =>
    obtain ⟨rfl, hrest⟩ := List.cons.inj hts
    rw [readAtom] at hread
    simp only [hlexeme, beq_self_eq_true, if_true] at hread
    split at hread
    · next member hlt _ =>
      -- The atom would end behind the name of a member, and so behind the token that it is.
      cases hname : memberName finish member with
      | error failure =>
        rw [hname] at hread
        cases hread
      | ok name =>
        rw [hname] at hread
        cases hread
        have hrest : rest = name.rest := hrest
        have := name.fits
        have := congrArg List.length hrest
        omega
    · next hnone =>
      cases hread
      exact hnone

/-- Tokens that are in a relation, and a mark that closes them. -/
def Closed {α : Type} (m : Mark) (D : List Token → α → Prop) (ts : List Token) (value : α) : Prop :=
  ∃ inner, ts = inner ++ [.mark m] ∧ D inner value

/-! ## The rules -/

mutual

theorem takes_readChoice (finish : Nat) (ts : List Lexeme) :
    Takes finish ts (Derives .choice) (readChoice finish ts) := by
  rw [readChoice]
  refine (takes_readFallback finish ts).bind fun condition a _ _ ha => ?_
  have := condition.fits
  split
  · exact .ok (by simpa using Derives.choice ha)
  · next rest hlt hquestion =>
    refine .afterMark hquestion ?_
    split
    · next rest' hlt' hcolon =>
      refine .afterMark hcolon ?_
      refine (takes_readChoice finish rest').bind fun no b _ _ hb => .ok ?_
      simpa using Derives.orElse ha hb
    · refine (takes_readChoice finish rest).bind fun yes b _ _ hb => ?_
      have := yes.fits
      split
      · exact .fail
      · next rest' hlt' hcolon =>
        refine .afterMark hcolon ?_
        refine (takes_readChoice finish rest').bind fun no c _ _ hc' => .ok ?_
        simpa using Derives.ternary ha hb hc'
termination_by 24 * ts.length + 19
decreasing_by all_goals omega

theorem takes_readFallback (finish : Nat) (ts : List Lexeme) :
    Takes finish ts (Derives .fallback) (readFallback finish ts) := by
  rw [readFallback]
  refine (takes_readLeft finish .or ts).bind fun left a _ _ ha => ?_
  have := left.fits
  split
  · exact .ok (by simpa using Derives.fallback ha)
  · next rest hlt hcoalesce =>
    refine .afterMark hcoalesce ?_
    refine (takes_readFallback finish rest).bind fun right b _ _ hb => .ok ?_
    simpa using Derives.coalesce ha hb
termination_by 24 * ts.length + 18
decreasing_by all_goals first | omega | (have h := LeftLevel.rank_le .or; omega)

theorem takes_readLeft (finish : Nat) (l : LeftLevel) (ts : List Lexeme) :
    Takes finish ts (Derives (.left l)) (readLeft finish l ts) := by
  rw [readLeft]
  refine (takes_readOperand finish l ts).bind fun first a _ _ ha => ?_
  have := first.fits
  refine (takes_readChain finish l (.operand ha) first.rest).bind fun all b _ _ hb => .ok ?_
  simpa using hb
termination_by 24 * ts.length + 2 * l.rank + 5
decreasing_by all_goals omega

theorem takes_readOperand (finish : Nat) (l : LeftLevel) (ts : List Lexeme) :
    Takes finish ts (Derives l.operand) (readOperand finish l ts) := by
  rw [readOperand]
  split
  · next tighter htighter =>
    have := LeftLevel.rank_of_tighter? htighter
    rw [LeftLevel.operand_of_tighter? htighter]
    exact takes_readLeft finish tighter ts
  · next htighter =>
    rw [LeftLevel.operand_of_tighter?_eq_none htighter]
    exact takes_readSigned finish ts
termination_by 24 * ts.length + 2 * l.rank + 4
decreasing_by all_goals omega

/-- The chain goes on from an expression of the level that was read before it. -/
theorem takes_readChain (finish : Nat) (l : LeftLevel) {before : List Token} {left : Expr}
    (hbefore : Derives (.left l) before left) (ts : List Lexeme) :
    Takes finish ts (fun back e => Derives (.left l) (before ++ back) e)
      (readChain finish l left ts) := by
  rw [readChain]
  split
  · exact .ok (by simpa using hbefore)
  · next op rest hlt hop =>
    obtain ⟨lexeme, hwrites, hrest⟩ := of_nextOperator? hop
    refine .behind hrest ?_
    refine (takes_readOperand finish l rest).bind fun right b _ _ hb => ?_
    have := right.fits
    refine (takes_readChain finish l (.operator hbefore hwrites hb) right.rest).bind
      fun all c _ _ hc => .ok ?_
    simpa using hc
termination_by 24 * ts.length
decreasing_by all_goals (have h := LeftLevel.rank_le l; omega)

theorem takes_readSigned (finish : Nat) (ts : List Lexeme) :
    Takes finish ts (Derives .signed) (readSigned finish ts) := by
  rw [readSigned]
  split
  · next rest hlt hsign =>
    refine .afterMark hsign ?_
    refine (takes_readSigned finish rest).bind fun operand a _ _ ha => .ok ?_
    simpa using ha.not
  · next rest hlt _ hsign =>
    refine .afterMark hsign ?_
    refine (takes_readSigned finish rest).bind fun operand a _ _ ha => .ok ?_
    simpa using ha.negate
  · next rest hlt _ _ hsign =>
    refine .afterMark hsign ?_
    refine (takes_readSigned finish rest).bind fun operand a _ _ ha => .ok ?_
    simpa using ha.plus
  · refine (takes_readAtom finish ts).bind fun target a hread hts ha => ?_
    have := target.fits
    refine (takes_readAccesses finish (.access ha) target.rest
      (afterArrow?_of_readAtom hread hts)).bind fun all b _ _ hb => .ok ?_
    simpa using hb.signed
termination_by 24 * ts.length + 3
decreasing_by all_goals omega

/-- The accesses go on from an expression that was read before them. -/
theorem takes_readAccesses (finish : Nat) {before : List Token} {target : Expr}
    (hbefore : Derives .access before target) (ts : List Lexeme)
    (hthis : before = [.variable "this"] → afterArrow? ts = none) :
    Takes finish ts (fun back e => Derives .access (before ++ back) e)
      (readAccesses finish target ts) := by
  rw [readAccesses]
  split
  · next rest hlt harrow =>
    obtain ⟨arrow, ht, hrest⟩ := of_afterArrow? harrow
    refine .behind hrest ?_
    refine (takes_memberName finish rest).bind fun name a _ _ ha => ?_
    have := name.fits
    -- behind the bare `$this` the arrow would have been taken before
    have hbare : before ≠ [.variable "this"] := by
      intro h
      rw [hthis h] at harrow
      cases harrow
    have hproperty : Derives .access (before ++ [arrow.token, .ident name.value]) _ :=
      .property hbefore ht hbare
    refine (takes_readAccesses finish hproperty name.rest fun h => ?_).bind
      fun all b _ _ hb => .ok ?_
    · simpa using congrArg List.length h
    · simpa [ha] using hb
  · next rest hlt _ hbracket =>
    refine .afterMark hbracket ?_
    refine (takes_readChoice finish rest).bind fun key a _ _ ha => ?_
    have := key.fits
    split
    · exact .fail
    · next rest' hlt' hclosing =>
      refine .afterMark hclosing ?_
      refine (takes_readAccesses finish (.index hbefore ha) rest' fun h => ?_).bind
        fun all b _ _ hb => .ok ?_
      · have hlength := congrArg List.length h
        simp only [List.length_append, List.length_cons, List.length_nil] at hlength
        omega
      · simpa using hb
  · exact .ok (by simpa using hbefore)
termination_by 24 * ts.length
decreasing_by all_goals omega

theorem takes_readAtom (finish : Nat) :
    ∀ ts : List Lexeme, Takes finish ts (Derives .atom) (readAtom finish ts)
  | [] => by
    rw [readAtom]
    exact .refuse
  | lexeme :: rest => by
    rw [readAtom]
    split
    · next name hname =>
      split
      · next member hlt harrow =>
        obtain ⟨arrow, ht, hrest⟩ := of_afterArrow? harrow
        split
        · next hthis =>
          refine .behind rfl (.behind hrest ?_)
          refine (takes_memberName finish member).bind fun name a _ _ ha => .ok ?_
          simpa [hname, eq_of_beq hthis, ha] using Derives.ownName ht
        · exact .behind rfl (.ok (by simpa [hname] using Derives.variable))
      · exact .behind rfl (.ok (by simpa [hname] using Derives.variable))
    · next n hn => exact .behind rfl (.ok (by simpa [hn] using Derives.int))
    · next x hx => exact .behind rfl (.ok (by simpa [hx] using Derives.float))
    · next s hs => exact .behind rfl (.ok (by simpa [hs] using Derives.string))
    · next hopening =>
      refine .behind rfl ?_
      refine (takes_readChoice finish rest).bind fun inner a _ _ ha => ?_
      split
      · exact .fail
      · next rest' hlt hclosing =>
        refine .afterMark hclosing (.ok ?_)
        simpa [hopening] using Derives.paren ha
    · next hopening =>
      refine .behind rfl ?_
      refine (takes_readItems finish rest).bind fun items a _ _ ha => .ok ?_
      obtain ⟨inner, ha, hitems⟩ := ha
      simpa [hopening, ha] using Derives.array hitems
    · next name hname =>
      split
      · next rest' hlt hopening =>
        refine .behind rfl (.afterMark hopening ?_)
        refine (takes_readArguments finish rest').bind fun arguments a _ _ ha => .ok ?_
        obtain ⟨inner, ha, harguments⟩ := ha
        simpa [hname, ha] using Derives.call harguments
      · split
        · next value hvalue =>
          refine .behind rfl (.ok ?_)
          simpa [hname] using Derives.constant (isConstant_iff.2 hvalue)
        · exact .fail
    · exact .refuse
termination_by ts => 24 * ts.length + 1
decreasing_by all_goals (simp only [List.length_cons]; omega)

/-- The arguments that are read go up to the closing parenthesis. -/
theorem takes_readArguments (finish : Nat) (ts : List Lexeme) :
    Takes finish ts (Closed .rightParen ArgumentList) (readArguments finish ts) := by
  rw [readArguments]
  split
  · next rest hlt hclosing =>
    exact .afterMark hclosing (.ok ⟨[], rfl, .none⟩)
  · refine (takes_readMoreArguments finish ts).mono ?_
    rintro front es ⟨inner, hfront, hinner⟩
    exact ⟨inner, hfront, .some hinner⟩
termination_by 24 * ts.length + 21
decreasing_by all_goals omega

theorem takes_readMoreArguments (finish : Nat) (ts : List Lexeme) :
    Takes finish ts (Closed .rightParen MoreArguments) (readMoreArguments finish ts) := by
  rw [readMoreArguments]
  refine (takes_readChoice finish ts).bind fun argument a _ _ ha => ?_
  have := argument.fits
  split
  · next rest hlt hclosing =>
    exact .afterMark hclosing (.ok ⟨tokens a, by simp, .last ha⟩)
  · split
    · exact .fail
    · next rest hlt hcomma =>
      refine .afterMark hcomma ?_
      refine (takes_readMoreArguments finish rest).bind fun more b _ _ hb => .ok ?_
      obtain ⟨inner, hb, hinner⟩ := hb
      exact ⟨_, by simp [hb], .more ha hinner⟩
termination_by 24 * ts.length + 20
decreasing_by all_goals omega

/-- The items that are read go up to the closing bracket. -/
theorem takes_readItems (finish : Nat) (ts : List Lexeme) :
    Takes finish ts (Closed .rightBracket ItemList) (readItems finish ts) := by
  rw [readItems]
  split
  · next rest hlt hclosing =>
    exact .afterMark hclosing (.ok ⟨[], rfl, .none⟩)
  · refine (takes_readItem finish ts).bind fun item a _ _ ha => ?_
    have := item.fits
    split
    · next rest hlt hcomma =>
      refine .afterMark hcomma ?_
      refine (takes_readItems finish rest).bind fun more b _ _ hb => .ok ?_
      obtain ⟨inner, hb, hinner⟩ := hb
      exact ⟨_, by simp [hb], .more ha hinner⟩
    · split
      · exact .fail
      · next rest hlt hclosing =>
        exact .afterMark hclosing (.ok ⟨tokens a, by simp, .last ha⟩)
termination_by 24 * ts.length + 21
decreasing_by all_goals omega

theorem takes_readItem (finish : Nat) (ts : List Lexeme) :
    Takes finish ts Item (readItem finish ts) := by
  rw [readItem]
  refine (takes_readChoice finish ts).bind fun first a _ _ ha => ?_
  have := first.fits
  split
  · exact .ok (by simpa using Item.plain ha)
  · next rest hlt harrow =>
    refine .afterMark harrow ?_
    refine (takes_readChoice finish rest).bind fun value b _ _ hb => .ok ?_
    simpa using Item.keyed ha hb
termination_by 24 * ts.length + 20
decreasing_by all_goals omega

end

end Stencil.Expr
