import Stencil.Proofs.View.SiblingTexts
/-
  Which of a condition and a loop was written first.

  What a tag expands to is said here without the rounds of its loop being taken one by one.  The entries of
  the loop give the scopes of its rounds, each with a frame of its own.  A condition written before the loop
  is asked once, around it; one written after it picks among the scopes, up to the first in which asking
  it fails.  Along with this goes what is evaluated, and in which scopes.

  The main statement is that a tag expands to this and to nothing else.  The one induction is on the entries
  of a loop, once for each of its three endings: no filter, a filter that always answers, one that fails.
  That something is evaluated shows in an evaluator that fails there: it ends the tag with its error.
-/

namespace Stencil

/-- The names a loop binds in a round.  The item wins over a key of the same name. -/
def Foreach.frame (loop : Foreach) (entry : Value × Value) : Bindings :=
  match loop.key with
  | none => [(loop.item, entry.2)]
  | some name =>
    if name = loop.item then [(loop.item, entry.2)] else [(name, entry.1), (loop.item, entry.2)]

namespace Expansion

variable {evaluate : Evaluator} {d : Directives} {loop : Foreach} {c : Condition} {scope : Scope}

/-! ## What a loop runs over -/

/-- The scope of a round: the names of the loop, in a frame inside the scope around it. -/
def inner (loop : Foreach) (scope : Scope) (entry : Value × Value) : Scope :=
  { scope.child with own := loop.frame entry }

theorem roundScope_eq (loop : Foreach) (scope : Scope) (entry : Value × Value) :
    roundScope loop scope entry.1 entry.2 = inner loop scope entry := by
  unfold roundScope inner Foreach.frame
  cases loop.key with
  | none => rfl
  | some name =>
    dsimp only
    split
    · next h => simp [Scope.set, Scope.child, Ordered.put, h]
    · next h => simp [Scope.set, Scope.child, Ordered.put, h]

/-- The entries of a loop, which is evaluated in the scope around it. -/
def entries (evaluate : Evaluator) (loop : Foreach) (scope : Scope) :
    Except EvalError (List (Value × Value)) :=
  match evaluate loop.iterable scope with
  | .error e => .error e
  | .ok iterable =>
    match iterable.entries? with
    | none => .error (.type (.loop iterable.kind loop.iterable))
    | some all => .ok all

theorem loopOver_eq (filter : Option Condition) :
    loopOver evaluate loop filter scope =
      match entries evaluate loop scope with
      | .error e => ⟨[], .error e⟩
      | .ok [] => ⟨[], .ok ⟨false, .empty⟩⟩
      | .ok (entry :: more) => rounds evaluate loop filter scope filter.isNone (entry :: more) := by
  unfold loopOver entries
  cases evaluate loop.iterable scope with
  | error e => rfl
  | ok iterable =>
    dsimp only
    cases iterable.entries? with
    | none => rfl
    | some all => cases all <;> rfl

/-- A condition holds in a scope. -/
def passes (evaluate : Evaluator) (c : Condition) (scope : Scope) : Bool :=
  match holds evaluate c scope with
  | .ok held => held
  | .error _ => false

/-- A condition can be asked in a scope. -/
def Answers (evaluate : Evaluator) (c : Condition) (scope : Scope) : Prop :=
  ∃ held, holds evaluate c scope = .ok held

/-! ## The rounds of a loop -/

/-- Without a filter there is a round for each entry. -/
theorem rounds_none (chosen : Bool) (es : List (Value × Value)) :
    rounds evaluate loop none scope chosen es =
      ⟨es.map (inner loop scope), .ok ⟨chosen, .iterated⟩⟩ := by
  induction es with
  | nil => rfl
  | cons entry more ih =>
    rw [rounds]
    simp only [ih, roundScope_eq, List.map_cons]

/-- A filter that always answers picks the rounds in which it holds. -/
theorem rounds_filtered (chosen : Bool) {es : List (Value × Value)}
    (h : ∀ entry ∈ es, Answers evaluate c (inner loop scope entry)) :
    rounds evaluate loop (some c) scope chosen es =
      ⟨(es.map (inner loop scope)).filter (passes evaluate c),
        .ok ⟨chosen || (es.map (inner loop scope)).any (passes evaluate c), .iterated⟩⟩ := by
  induction es generalizing chosen with
  | nil => simp [rounds]
  | cons entry more ih =>
    have ih := fun chosen => ih chosen fun e he => h e (List.mem_cons_of_mem _ he)
    obtain ⟨held, hheld⟩ := h entry List.mem_cons_self
    have hpasses : passes evaluate c (inner loop scope entry) = held := by rw [passes, hheld]
    rw [rounds]
    simp only [roundScope_eq, hheld, List.map_cons, List.any_cons, hpasses]
    cases held with
    | false => simp [ih, hpasses]
    | true => simp [ih, hpasses]

/-- A filter that fails ends the rounds. -/
theorem rounds_refused (chosen : Bool) {front back : List (Value × Value)} {entry : Value × Value}
    {e : EvalError} (h : ∀ entry ∈ front, Answers evaluate c (inner loop scope entry))
    (he : holds evaluate c (inner loop scope entry) = .error e) :
    rounds evaluate loop (some c) scope chosen (front ++ entry :: back) =
      ⟨(front.map (inner loop scope)).filter (passes evaluate c), .error e⟩ := by
  induction front generalizing chosen with
  | nil =>
    rw [List.nil_append, rounds]
    simp only [roundScope_eq, he]
    rfl
  | cons first front ih =>
    have ih := fun chosen => ih chosen fun e he => h e (List.mem_cons_of_mem _ he)
    obtain ⟨held, hheld⟩ := h first List.mem_cons_self
    have hpasses : passes evaluate c (inner loop scope first) = held := by rw [passes, hheld]
    rw [List.cons_append, rounds]
    simp only [roundScope_eq, hheld, List.map_cons]
    cases held with
    | false => simp [ih, hpasses]
    | true => simp [ih, hpasses]

/-- A filter answers in all rounds, or there is a first one in which it fails. -/
theorem answers_or_fails (evaluate : Evaluator) (c : Condition) (loop : Foreach) (scope : Scope)
    (es : List (Value × Value)) :
    (∀ entry ∈ es, Answers evaluate c (inner loop scope entry)) ∨
      ∃ front entry back e, es = front ++ entry :: back ∧
        (∀ entry ∈ front, Answers evaluate c (inner loop scope entry)) ∧
        holds evaluate c (inner loop scope entry) = .error e := by
  induction es with
  | nil => exact .inl fun _ h => absurd h List.not_mem_nil
  | cons first more ih =>
    cases hfirst : holds evaluate c (inner loop scope first) with
    | error e => exact .inr ⟨[], first, more, e, rfl, fun _ h => absurd h List.not_mem_nil, hfirst⟩
    | ok held =>
      rcases ih with hall | ⟨front, entry, back, e, rfl, hfront, he⟩
      · exact .inl (List.forall_mem_cons.2 ⟨⟨held, hfirst⟩, hall⟩)
      · exact .inr ⟨first :: front, entry, back, e, rfl,
          List.forall_mem_cons.2 ⟨⟨held, hfirst⟩, hfront⟩, he⟩

/-! ## The rule -/

/-- The expressions a tag evaluates, each with the scope it is evaluated in. -/
abbrev Asked := List (String × Scope)

/-- What a condition evaluates in a scope: its expression, if it has one. -/
def asks (c : Condition) (scope : Scope) : Asked :=
  c.test.expression?.toList.map fun expression => (expression, scope)

/-- What a loop with this filter comes to: what it evaluates, the scopes of its bodies, and its outcome. -/
inductive Loops (evaluate : Evaluator) (loop : Foreach) (scope : Scope) :
    Option Condition → Asked → List Scope → Except EvalError Outcome → Prop where
  | fails {filter : Option Condition} {err : EvalError} : entries evaluate loop scope = .error err →
      Loops evaluate loop scope filter [(loop.iterable, scope)] [] (.error err)
  | empty {filter : Option Condition} : entries evaluate loop scope = .ok [] →
      Loops evaluate loop scope filter [(loop.iterable, scope)] [] (.ok ⟨false, .empty⟩)
  | all {es : List (Value × Value)} : entries evaluate loop scope = .ok es → es ≠ [] →
      Loops evaluate loop scope none [(loop.iterable, scope)] (es.map (inner loop scope))
        (.ok ⟨true, .iterated⟩)
  | filtered {c : Condition} {es : List (Value × Value)} : entries evaluate loop scope = .ok es → es ≠ [] →
      (∀ entry ∈ es, Answers evaluate c (inner loop scope entry)) →
      Loops evaluate loop scope (some c)
        ((loop.iterable, scope) :: (es.map (inner loop scope)).flatMap (asks c))
        ((es.map (inner loop scope)).filter (passes evaluate c))
        (.ok ⟨(es.map (inner loop scope)).any (passes evaluate c), .iterated⟩)
  | filterFails {c : Condition} {front back : List (Value × Value)} {entry : Value × Value}
      {err : EvalError} : entries evaluate loop scope = .ok (front ++ entry :: back) →
      (∀ entry ∈ front, Answers evaluate c (inner loop scope entry)) →
      holds evaluate c (inner loop scope entry) = .error err →
      Loops evaluate loop scope (some c)
        ((loop.iterable, scope) :: ((front ++ [entry]).map (inner loop scope)).flatMap (asks c))
        ((front.map (inner loop scope)).filter (passes evaluate c)) (.error err)

/-- What a tag comes to by its directives, by which of them was written first. -/
inductive Expands (evaluate : Evaluator) (d : Directives) (scope : Scope) :
    Asked → List Scope → Except EvalError Outcome → Prop where
  | plain : d.condition = none → d.foreach? = none →
      Expands evaluate d scope [] [scope] (.ok ⟨true, .noLoop⟩)
  | condition {c : Condition} {held : Bool} : d.condition = some c → d.foreach? = none →
      holds evaluate c scope = .ok held →
      Expands evaluate d scope (asks c scope) (if held then [scope] else []) (.ok ⟨held, .noLoop⟩)
  | conditionFails {c : Condition} {err : EvalError} : d.condition = some c →
      (∀ loop ∈ d.foreach?, c.position < loop.position) → holds evaluate c scope = .error err →
      Expands evaluate d scope (asks c scope) [] (.error err)
  | gated {c : Condition} {loop : Foreach} : d.condition = some c → d.foreach? = some loop →
      c.position < loop.position → holds evaluate c scope = .ok false →
      Expands evaluate d scope (asks c scope) [] (.ok ⟨false, .gated⟩)
  | entered {c : Condition} {loop : Foreach} {asked : Asked} {bodies : List Scope}
      {outcome : Except EvalError Outcome} : d.condition = some c → d.foreach? = some loop →
      c.position < loop.position → holds evaluate c scope = .ok true →
      Loops evaluate loop scope none asked bodies outcome →
      Expands evaluate d scope (asks c scope ++ asked) bodies
        (outcome.map fun outcome => { outcome with chosen := true })
  | loop {loop : Foreach} {asked : Asked} {bodies : List Scope}
      {outcome : Except EvalError Outcome} : d.condition = none → d.foreach? = some loop →
      Loops evaluate loop scope none asked bodies outcome →
      Expands evaluate d scope asked bodies outcome
  | eachRound {c : Condition} {loop : Foreach} {asked : Asked} {bodies : List Scope}
      {outcome : Except EvalError Outcome} : d.condition = some c → d.foreach? = some loop →
      ¬ c.position < loop.position → Loops evaluate loop scope (some c) asked bodies outcome →
      Expands evaluate d scope asked bodies outcome

variable {evaluate' : Evaluator} {filter : Option Condition} {asked : Asked} {bodies : List Scope}
  {outcome : Except EvalError Outcome}

/-! ## A tag comes to nothing else -/

theorem loopOver_eq_of_loops (h : Loops evaluate loop scope filter asked bodies outcome) :
    loopOver evaluate loop filter scope = ⟨bodies, outcome⟩ := by
  rw [loopOver_eq]
  cases h with
  | fails he => rw [he]
  | empty he => rw [he]
  | @all es he hne =>
    obtain ⟨entry, more, rfl⟩ := List.exists_cons_of_ne_nil hne
    rw [he]
    exact rounds_none true (entry :: more)
  | @filtered c es he hne hall =>
    obtain ⟨entry, more, rfl⟩ := List.exists_cons_of_ne_nil hne
    rw [he]
    exact rounds_filtered false hall
  | @filterFails c front back entry err he hfront herr =>
    rw [he]
    have hrounds : rounds evaluate loop (some c) scope false (front ++ entry :: back) = _ :=
      rounds_refused false hfront herr
    -- there is a first entry: the first of the front, or the one that fails
    cases front with
    | nil => exact hrounds
    | cons first front => exact hrounds

/-- The rule tells what a tag is expanded to. -/
theorem expand_eq_of_expands (h : Expands evaluate d scope asked bodies outcome) :
    expand evaluate d scope = ⟨bodies, outcome⟩ := by
  unfold expand Directives.interplay
  cases h with
  | plain hc hl => simp only [hc, hl]
  | @condition c held hc hl hheld => cases held <;> simp only [hc, hl, hheld] <;> rfl
  | @conditionFails c err hc hbefore herr =>
    cases hl : d.foreach? with
    | none => simp only [hc, herr]
    | some loop => simp only [hc, herr, if_pos (hbefore loop hl), if_true]
  | gated hc hl hbefore hheld => simp only [hc, hl, if_pos hbefore, if_true, hheld]
  | entered hc hl hbefore hheld hloops =>
    simp only [hc, hl, if_pos hbefore, if_true, hheld, loopOver_eq_of_loops hloops]
  | loop hc hl hloops => simp only [hc, hl, loopOver_eq_of_loops hloops]
  | eachRound hc hl hafter hloops =>
    simp only [hc, hl, if_neg hafter, reduceCtorEq, if_false, loopOver_eq_of_loops hloops]

theorem exists_loops (evaluate : Evaluator) (loop : Foreach) (scope : Scope)
    (filter : Option Condition) :
    ∃ asked bodies outcome, Loops evaluate loop scope filter asked bodies outcome := by
  cases he : entries evaluate loop scope with
  | error err => exact ⟨_, _, _, .fails he⟩
  | ok es =>
    by_cases hne : es = []
    · rw [hne] at he
      exact ⟨_, _, _, .empty he⟩
    · cases filter with
      | none => exact ⟨_, _, _, .all he hne⟩
      | some c =>
        rcases answers_or_fails evaluate c loop scope es with
          hall | ⟨front, entry, back, err, rfl, hfront, herr⟩
        · exact ⟨_, _, _, .filtered he hne hall⟩
        · exact ⟨_, _, _, .filterFails he hfront herr⟩

/-- The rule tells something of every tag. -/
theorem exists_expands (evaluate : Evaluator) (d : Directives) (scope : Scope) :
    ∃ asked bodies outcome, Expands evaluate d scope asked bodies outcome := by
  cases hc : d.condition with
  | none =>
    cases hl : d.foreach? with
    | none => exact ⟨_, _, _, .plain hc hl⟩
    | some loop =>
      obtain ⟨asked, bodies, outcome, hloops⟩ := exists_loops evaluate loop scope none
      exact ⟨_, _, _, .loop hc hl hloops⟩
  | some c =>
    cases hl : d.foreach? with
    | none =>
      cases hheld : holds evaluate c scope with
      | error err => exact ⟨_, _, _, .conditionFails hc (by simp [hl]) hheld⟩
      | ok held => exact ⟨_, _, _, .condition hc hl hheld⟩
    | some loop =>
      by_cases hbefore : c.position < loop.position
      · cases hheld : holds evaluate c scope with
        | error err => exact ⟨_, _, _, .conditionFails hc (by simpa [hl] using hbefore) hheld⟩
        | ok held =>
          cases held with
          | false => exact ⟨_, _, _, .gated hc hl hbefore hheld⟩
          | true =>
            obtain ⟨asked, bodies, outcome, hloops⟩ := exists_loops evaluate loop scope none
            exact ⟨_, _, _, .entered hc hl hbefore hheld hloops⟩
      · obtain ⟨asked, bodies, outcome, hloops⟩ := exists_loops evaluate loop scope (some c)
        exact ⟨_, _, _, .eachRound hc hl hbefore hloops⟩

/-! ## A tag evaluates nothing else -/

/-- Two evaluators give the same for all that is asked. -/
def Agrees (evaluate evaluate' : Evaluator) (asked : Asked) : Prop :=
  ∀ q ∈ asked, evaluate' q.1 q.2 = evaluate q.1 q.2

theorem holds_eq_of_agrees (h : Agrees evaluate evaluate' (asks c scope)) :
    holds evaluate' c scope = holds evaluate c scope := by
  unfold holds
  cases hexpression : c.test.expression? with
  | none => rfl
  | some expression =>
    have := h (expression, scope) (by simp [asks, hexpression])
    simp only [this]

theorem entries_eq_of_iterable (h : evaluate' loop.iterable scope = evaluate loop.iterable scope) :
    entries evaluate' loop scope = entries evaluate loop scope := by
  unfold entries
  rw [h]

/-- A filter is asked in the scopes of the rounds. -/
theorem holds_rounds_eq {es : List (Value × Value)}
    (h : Agrees evaluate evaluate' ((es.map (inner loop scope)).flatMap (asks c))) :
    ∀ entry ∈ es, holds evaluate' c (inner loop scope entry) = holds evaluate c (inner loop scope entry) :=
  fun _ hentry => holds_eq_of_agrees fun q hq =>
    h q (List.mem_flatMap.2 ⟨_, List.mem_map_of_mem hentry, hq⟩)

/-- What a filter picks depends on its answers only. -/
theorem passes_rounds_eq {es : List (Value × Value)}
    (h : ∀ entry ∈ es,
      holds evaluate' c (inner loop scope entry) = holds evaluate c (inner loop scope entry)) :
    ∀ s ∈ es.map (inner loop scope), passes evaluate' c s = passes evaluate c s := by
  intro s hs
  obtain ⟨entry, hentry, rfl⟩ := List.mem_map.1 hs
  rw [passes, passes, h entry hentry]

theorem any_congr_of_mem {p q : Scope → Bool} {scopes : List Scope} (h : ∀ s ∈ scopes, p s = q s) :
    scopes.any p = scopes.any q := by
  rw [Bool.eq_iff_iff, List.any_eq_true, List.any_eq_true]
  exact exists_congr fun s => and_congr_right fun hs => by rw [h s hs]

theorem Loops.congr (h : Loops evaluate loop scope filter asked bodies outcome)
    (hagrees : Agrees evaluate evaluate' asked) :
    Loops evaluate' loop scope filter asked bodies outcome := by
  have hentries : entries evaluate' loop scope = entries evaluate loop scope :=
    entries_eq_of_iterable (hagrees (loop.iterable, scope) (by cases h <;> exact List.mem_cons_self))
  cases h with
  | fails he => exact .fails (hentries.trans he)
  | empty he => exact .empty (hentries.trans he)
  | all he hne => exact .all (hentries.trans he) hne
  | @filtered c es he hne hall =>
    have hrounds := holds_rounds_eq fun q hq => hagrees q (List.mem_cons_of_mem _ hq)
    have hpasses := passes_rounds_eq hrounds
    rw [← List.filter_congr hpasses, ← any_congr_of_mem hpasses]
    refine .filtered (hentries.trans he) hne fun entry hentry => ?_
    rw [Answers, hrounds entry hentry]
    exact hall entry hentry
  | @filterFails c front back entry err he hfront herr =>
    have hrounds := holds_rounds_eq fun q hq => hagrees q (List.mem_cons_of_mem _ hq)
    have hbefore := fun first hfirst => hrounds first (List.mem_append_left [entry] hfirst)
    have hlast := hrounds entry (List.mem_append_right front List.mem_cons_self)
    rw [← List.filter_congr (passes_rounds_eq hbefore)]
    refine .filterFails (hentries.trans he) (fun first hfirst => ?_) (hlast.trans herr)
    rw [Answers, hbefore first hfirst]
    exact hfront first hfirst

/-- What a tag comes to depends on what it asks only. -/
theorem Expands.congr (h : Expands evaluate d scope asked bodies outcome)
    (hagrees : Agrees evaluate evaluate' asked) :
    Expands evaluate' d scope asked bodies outcome := by
  cases h with
  | plain hc hl => exact .plain hc hl
  | condition hc hl hheld => exact .condition hc hl ((holds_eq_of_agrees hagrees).trans hheld)
  | conditionFails hc hbefore herr =>
    exact .conditionFails hc hbefore ((holds_eq_of_agrees hagrees).trans herr)
  | gated hc hl hbefore hheld => exact .gated hc hl hbefore ((holds_eq_of_agrees hagrees).trans hheld)
  | entered hc hl hbefore hheld hloops =>
    have hgate := holds_eq_of_agrees fun q hq => hagrees q (List.mem_append_left _ hq)
    exact .entered hc hl hbefore (hgate.trans hheld)
      (hloops.congr fun q hq => hagrees q (List.mem_append_right _ hq))
  | loop hc hl hloops => exact .loop hc hl (hloops.congr hagrees)
  | eachRound hc hl hafter hloops => exact .eachRound hc hl hafter (hloops.congr hagrees)

/-! ## A tag evaluates all of it, in this order -/

/-- What is asked in the rounds, cut at one question, is cut at the round that asks it. -/
theorem exists_round_asking {es : List (Value × Value)} {front back : Asked} {q : String × Scope}
    (h : (es.map (inner loop scope)).flatMap (asks c) = front ++ q :: back) :
    ∃ before entry after, es = before ++ entry :: after ∧
      front = (before.map (inner loop scope)).flatMap (asks c) ∧ asks c (inner loop scope entry) = [q] := by
  cases hexpression : c.test.expression? with
  | none =>
    rw [List.flatMap_eq_nil_iff.2 fun s _ => by simp [asks, hexpression]] at h
    simp at h
  | some expression =>
    have hasks : asks c = fun s => [(expression, s)] := funext fun s => by simp [asks, hexpression]
    rw [hasks, ← List.map_eq_flatMap, List.map_map] at h
    obtain ⟨before, rest, rfl, rfl, hrest⟩ := List.map_eq_append_iff.1 h
    obtain ⟨entry, after, rfl, hq, -⟩ := List.map_eq_cons_iff.1 hrest
    refine ⟨before, entry, after, rfl, ?_, ?_⟩
    · rw [hasks, ← List.map_eq_flatMap, List.map_map]
    · rw [hasks, ← hq]
      rfl

theorem holds_eq_error {q : String × Scope} {err : EvalError} (hq : asks c scope = [q])
    (herr : evaluate q.1 q.2 = .error err) : holds evaluate c scope = .error err := by
  unfold asks at hq
  unfold holds
  cases hexpression : c.test.expression? with
  | none =>
    rw [hexpression] at hq
    cases hq
  | some expression =>
    rw [hexpression] at hq
    obtain ⟨rfl, -⟩ := List.cons.inj hq
    simp only [herr]
    rfl

/-- A filter that is asked in the rounds can fail in each of them. -/
theorem Loops.fails_in_round {es asking rest : List (Value × Value)} {front back : Asked}
    {q : String × Scope} {err : EvalError} (he : entries evaluate loop scope = .ok es)
    (hes : es = asking ++ rest) (hanswers : ∀ e ∈ asking.dropLast, Answers evaluate c (inner loop scope e))
    (hasked : (asking.map (inner loop scope)).flatMap (asks c) = front ++ q :: back)
    (hagrees : Agrees evaluate evaluate' ((loop.iterable, scope) :: front))
    (herr : evaluate' q.1 q.2 = .error err) :
    ∃ bodies, Loops evaluate' loop scope (some c) ((loop.iterable, scope) :: (front ++ [q])) bodies
      (.error err) := by
  obtain ⟨before, entry, after, rfl, rfl, hq⟩ := exists_round_asking hasked
  have hrounds := holds_rounds_eq fun q hq => hagrees q (List.mem_cons_of_mem _ hq)
  have hentries : entries evaluate' loop scope = .ok (before ++ entry :: (after ++ rest)) := by
    rw [entries_eq_of_iterable (hagrees (loop.iterable, scope) List.mem_cons_self), he, hes]
    simp
  have hbefore : ∀ e ∈ before, Answers evaluate' c (inner loop scope e) := by
    intro e hmem
    rw [Answers, hrounds e hmem]
    exact hanswers e (by rw [List.dropLast_append_cons]; exact List.mem_append_left _ hmem)
  have hfails := Loops.filterFails hentries hbefore (holds_eq_error hq herr)
  simp only [List.map_append, List.map_cons, List.map_nil, List.flatMap_append, List.flatMap_cons,
    List.flatMap_nil, hq, List.append_nil] at hfails
  exact ⟨_, hfails⟩

theorem Loops.fails_at (h : Loops evaluate loop scope filter asked bodies outcome) {front back : Asked}
    {q : String × Scope} {err : EvalError} (hasked : asked = front ++ q :: back)
    (hagrees : Agrees evaluate evaluate' front) (herr : evaluate' q.1 q.2 = .error err) :
    ∃ bodies, Loops evaluate' loop scope filter (front ++ [q]) bodies (.error err) := by
  cases front with
  | nil =>
    -- the first question is what to loop over
    obtain rfl : (loop.iterable, scope) = q := by cases h <;> exact (List.cons.inj hasked).1
    exact ⟨_, .fails (by rw [entries, herr])⟩
  | cons first front =>
    cases h with
    | fails => simp at hasked
    | empty => simp at hasked
    | all => simp at hasked
    | filtered he _ hall =>
      obtain ⟨rfl, hrounds⟩ := List.cons.inj hasked
      exact fails_in_round he (List.append_nil _).symm
        (fun e hmem => hall e (List.dropLast_subset _ hmem)) hrounds hagrees herr
    | filterFails he hfront =>
      obtain ⟨rfl, hrounds⟩ := List.cons.inj hasked
      refine fails_in_round (he.trans (congrArg _ (List.append_cons ..))) rfl ?_ hrounds hagrees herr
      rwa [List.dropLast_concat]

/-- A question asked by a condition and then by something else is asked by the one or by the other. -/
theorem asks_append_eq {front back : Asked} {q : String × Scope}
    (h : asks c scope ++ asked = front ++ q :: back) :
    (∃ front', front = asks c scope ++ front' ∧ asked = front' ++ q :: back) ∨
      (front = [] ∧ asks c scope = [q]) := by
  unfold asks at h ⊢
  cases hexpression : c.test.expression? with
  | none =>
    rw [hexpression] at h
    exact .inl ⟨front, rfl, h⟩
  | some expression =>
    rw [hexpression] at h
    cases front with
    | nil => exact .inr ⟨rfl, by rw [(List.cons.inj h).1.symm]; rfl⟩
    | cons first front =>
      obtain ⟨rfl, hrest⟩ := List.cons.inj h
      exact .inl ⟨front, rfl, hrest⟩

theorem asks_eq_singleton {front back : Asked} {q : String × Scope}
    (h : asks c scope = front ++ q :: back) : front = [] ∧ asks c scope = [q] := by
  rcases asks_append_eq ((List.append_nil _).trans h) with ⟨front', -, hnil⟩ | hasks
  · simp at hnil
  · exact hasks

/-- An evaluator that fails for the first time at something a tag asks ends it there. -/
theorem Expands.fails_at (h : Expands evaluate d scope asked bodies outcome) {front back : Asked}
    {q : String × Scope} {err : EvalError} (hasked : asked = front ++ q :: back)
    (hagrees : Agrees evaluate evaluate' front) (herr : evaluate' q.1 q.2 = .error err) :
    ∃ bodies, Expands evaluate' d scope (front ++ [q]) bodies (.error err) := by
  cases h with
  | plain => simp at hasked
  | @condition c held hc hl =>
    obtain ⟨rfl, hq⟩ := asks_eq_singleton hasked
    exact ⟨[], hq ▸ .conditionFails hc (by simp [hl]) (holds_eq_error hq herr)⟩
  | @conditionFails c _ hc hbefore =>
    obtain ⟨rfl, hq⟩ := asks_eq_singleton hasked
    exact ⟨[], hq ▸ .conditionFails hc hbefore (holds_eq_error hq herr)⟩
  | @gated c loop hc hl hbefore =>
    obtain ⟨rfl, hq⟩ := asks_eq_singleton hasked
    exact ⟨[], hq ▸ .conditionFails hc (by simpa [hl] using hbefore) (holds_eq_error hq herr)⟩
  | @entered c loop asked _ _ hc hl hbefore hheld hloops =>
    rcases asks_append_eq hasked with ⟨front', rfl, hloop⟩ | ⟨rfl, hq⟩
    · have hgate := holds_eq_of_agrees fun q hq => hagrees q (List.mem_append_left _ hq)
      obtain ⟨bodies, hfails⟩ :=
        hloops.fails_at hloop (fun q hq => hagrees q (List.mem_append_right _ hq)) herr
      exact ⟨bodies, List.append_assoc .. ▸ .entered hc hl hbefore (hgate.trans hheld) hfails⟩
    · exact ⟨[], hq ▸ .conditionFails hc (by simpa [hl] using hbefore) (holds_eq_error hq herr)⟩
  | loop hc hl hloops =>
    obtain ⟨bodies, hfails⟩ := hloops.fails_at hasked hagrees herr
    exact ⟨bodies, .loop hc hl hfails⟩
  | eachRound hc hl hafter hloops =>
    obtain ⟨bodies, hfails⟩ := hloops.fails_at hasked hagrees herr
    exact ⟨bodies, .eachRound hc hl hafter hfails⟩

/-! ## The main statement -/

/-- For every tag the rule tells what it evaluates, the scopes of its bodies and its outcome.  Whatever the
    rule tells is so, also for an evaluator that differs in what the rule does not say to be evaluated, and a
    tag among siblings is rendered by it.  What the rule says to be evaluated is evaluated, and in this
    order: an evaluator that fails there for the first time ends the tag with its error. -/
theorem rendered_by_written_order (evaluate : Evaluator) (d : Directives) (scope : Scope) :
    (∃ asked bodies outcome, Expands evaluate d scope asked bodies outcome) ∧
    ∀ asked bodies outcome, Expands evaluate d scope asked bodies outcome → ∀ evaluate',
      (Agrees evaluate evaluate' asked →
        expand evaluate' d scope = ⟨bodies, outcome⟩ ∧
        ∀ (e : Engine) (fillings : List Filling) (nesting : Nat) (p : Progress) (n : Node) (tag : Tag)
          (rest : List Node), e.evaluator = evaluate' → n.tag? = some tag → tag.directives = d →
          p.skips tag = false →
          Render.nodes e fillings nesting scope p (n :: rest) = (do
            let texts ← bodies.mapM fun inner => Render.once e fillings nesting inner n
            let outcome ← Render.evaluated outcome
            let more ← Render.nodes e fillings nesting scope (p.after tag outcome) rest
            pure (String.join texts ++ more))) ∧
      ∀ front q back err, asked = front ++ q :: back → Agrees evaluate evaluate' front →
        evaluate' q.1 q.2 = .error err → (expand evaluate' d scope).outcome = .error err := by
  refine ⟨exists_expands evaluate d scope, ?_⟩
  intro asked bodies outcome h evaluate'
  constructor
  · intro hagrees
    have hexpand := expand_eq_of_expands (h.congr hagrees)
    refine ⟨hexpand, ?_⟩
    rintro e fillings nesting p n tag rest rfl htag rfl hskips
    rw [Render.nodes_cons, Render.sibling, htag]
    simp only [hskips, Bool.false_eq_true, if_false, Render.taggedText, hexpand, bind_assoc, pure_bind]
  · intro front q back err hasked hagrees herr
    obtain ⟨bodies, hfails⟩ := h.fails_at hasked hagrees herr
    rw [expand_eq_of_expands hfails]

end Expansion

end Stencil
