import Stencil.Proofs.Template.TagPair
/-
  What a cursor does under any sequence of operations.

  The contract of an operation is said without the cursor, by three texts: what the operation takes off the
  text ahead, what is left behind that, and what is answered.  One step of any operation keeps this contract and
  takes nothing off where it is refused; so after any number of them the cursor stands between two characters
  of the source, no farther back than before, with the rest of the source ahead of it, and what the next
  operation takes is the text between the position it finds and the position it leaves.
-/

namespace Stencil.Cursor

open Text (NotAhead EndsFirst isBlank byteLength equalIgnoringCase)
open Tag (IsTagName isQuote isValueChar)

/-- An operation of a cursor. -/
inductive Operation where
  | atEnd
  | remaining
  | spanFrom (first : Nat)
  | peek
  | peekSecond
  | next
  | skipBlanks
  | startsWith (mark : String)
  | startsWithIgnoringCase (text : String)
  | consume (mark : String)
  | takeWhile (p : Char → Bool)
  | through (mark : String)
  | tagName
  | attributeName
  | quoted
  | unquoted

/-- What an operation answers. -/
inductive Reply where
  | character (ch : Option Char)
  | flag (b : Bool)
  | bytes (n : Nat)
  | text (content : List Char)
  | span (s : Span)
  | value (content : List Char) (span : Span)
  | refused

/-- Whether a reply says that nothing was done. -/
def Reply.Refuses : Reply → Prop
  | .flag false | .refused => True
  | _ => False

/-- The reply to an attempt, and the cursor after it, which stays where it was when there is nothing to
    read. -/
def attempt {α : Type} (c : Cursor) (reply : α → Reply) : Option (α × Cursor) → Reply × Cursor
  | some (a, d) => (reply a, d)
  | none => (.refused, c)

/-- Perform an operation. -/
def perform (c : Cursor) : Operation → Reply × Cursor
  | .atEnd => (.flag c.atEnd, c)
  | .remaining => (.text c.rest, c)
  | .spanFrom first => (.span (c.spanFrom first), c)
  | .peek => (.character c.peek, c)
  | .peekSecond => (.character c.peekSecond, c)
  | .next => attempt c (fun ch => .character (some ch)) c.next?
  | .skipBlanks => (.bytes (c.skipBlanks.position - c.position), c.skipBlanks)
  | .startsWith mark => (.flag (c.startsWith mark), c)
  | .startsWithIgnoringCase text => (.flag (c.startsWithIgnoringCase text), c)
  | .consume mark =>
    match c.consume? mark with
    | some d => (.flag true, d)
    | none => (.flag false, c)
  | .takeWhile p => (.text (c.takeWhile p).1, (c.takeWhile p).2)
  | .through mark => attempt c .text (c.through? mark)
  | .tagName => attempt c .text c.tagName?
  | .attributeName => (.text c.attributeName.1, c.attributeName.2)
  | .quoted => attempt c (fun value => .value value.1 value.2) c.quoted?
  | .unquoted => (.value c.unquoted.1.1 c.unquoted.1.2, c.unquoted.2)

/-- Perform operations one after the other. -/
def performAll (c : Cursor) (ops : List Operation) : Cursor :=
  ops.foldl (fun c op => (c.perform op).2) c

/-! ## The contract -/

/-- `w` is the longest front whose characters all satisfy `p`, and `rest` comes behind it. -/
structure Front (p : Char → Bool) (w rest : List Char) : Prop where
  all : ∀ ch ∈ w, p ch = true
  stops : NotAhead p rest

/-- At the byte `start`, with `w ++ rest` ahead, an operation takes `w` off and gives this answer. -/
inductive Answers (start : Nat) : Operation → (w rest : List Char) → Reply → Prop where
  | atEnd {rest : List Char} {b : Bool} (h : b = true ↔ rest = []) :
      Answers start .atEnd [] rest (.flag b)
  | remaining {rest : List Char} : Answers start .remaining [] rest (.text rest)
  | spanFrom {first : Nat} {rest : List Char} :
      Answers start (.spanFrom first) [] rest (.span ⟨first, start⟩)
  | peek {rest : List Char} : Answers start .peek [] rest (.character rest.head?)
  | peekSecond {rest : List Char} : Answers start .peekSecond [] rest (.character rest.tail.head?)
  | next {ch : Char} {rest : List Char} : Answers start .next [ch] rest (.character (some ch))
  | noNext : Answers start .next [] [] .refused
  | skipBlanks {w rest : List Char} (h : Front isBlank w rest) :
      Answers start .skipBlanks w rest (.bytes (byteLength w))
  | startsWith {mark : String} {rest : List Char} {b : Bool} (h : b = true ↔ mark.toList <+: rest) :
      Answers start (.startsWith mark) [] rest (.flag b)
  | startsWithIgnoringCase {text : String} {rest : List Char} {b : Bool}
      (h : b = true ↔ ∃ front, front <+: rest ∧ equalIgnoringCase front text.toList = true) :
      Answers start (.startsWithIgnoringCase text) [] rest (.flag b)
  | consume {mark : String} {rest : List Char} : Answers start (.consume mark) mark.toList rest (.flag true)
  | noConsume {mark : String} {rest : List Char} (h : ¬ mark.toList <+: rest) :
      Answers start (.consume mark) [] rest (.flag false)
  | takeWhile {p : Char → Bool} {w rest : List Char} (h : Front p w rest) :
      Answers start (.takeWhile p) w rest (.text w)
  | through {mark : String} {before rest : List Char} (h : EndsFirst before mark.toList) :
      Answers start (.through mark) (before ++ mark.toList) rest (.text before)
  | noThrough {mark : String} {rest : List Char} (h : ¬ mark.toList <:+: rest) :
      Answers start (.through mark) [] rest .refused
  | tagName {w rest : List Char} (hname : IsTagName w) (h : NotAhead isTagChar rest) :
      Answers start .tagName w rest (.text w)
  | noTagName {rest : List Char} (h : NotAhead Char.isAlpha rest) : Answers start .tagName [] rest .refused
  | attributeName {w rest : List Char} (h : Front isAttributeChar w rest) :
      Answers start .attributeName w rest (.text w)
  | quoted {quote : Char} {value rest : List Char} (hquote : isQuote quote = true)
      (hvalue : quote ∉ value) :
      Answers start .quoted (quote :: value ++ [quote]) rest
        (.value value ⟨start + 1, start + 1 + byteLength value⟩)
  | noQuoted {rest : List Char}
      (h : ∀ quote value more, isQuote quote = true → rest ≠ quote :: value ++ quote :: more) :
      Answers start .quoted [] rest .refused
  | unquoted {w rest : List Char} (h : Front isValueChar w rest) :
      Answers start .unquoted w rest (.value w ⟨start, start + byteLength w⟩)

/-- Where nothing is done nothing is taken. -/
theorem Answers.eq_nil_of_refuses {start : Nat} {op : Operation} {w rest : List Char} {reply : Reply}
    (h : Answers start op w rest reply) (hrefuses : reply.Refuses) : w = [] := by
  cases h <;> first | rfl | exact hrefuses.elim

/-! ## One operation -/

variable {c d : Cursor}

theorem front_takeWhile (c : Cursor) (p : Char → Bool) :
    Front p (c.takeWhile p).1 (c.takeWhile p).2.rest :=
  ⟨c.all_takeWhile p, c.notAhead_takeWhile p⟩

theorem reads_self (c : Cursor) : c.Reads [] c := ⟨rfl, rfl⟩

theorem startsWith_iff_prefix {mark : String} : c.startsWith mark = true ↔ mark.toList <+: c.rest := by
  rw [startsWith, Option.isSome_iff_exists]
  constructor
  · rintro ⟨rest, hrest⟩
    exact ⟨rest, (Text.afterMark_eq_some_iff.1 hrest).symm⟩
  · rintro ⟨rest, hrest⟩
    exact ⟨rest, Text.afterMark_eq_some_iff.2 hrest.symm⟩

theorem startsWithIgnoringCase_iff {text : String} :
    c.startsWithIgnoringCase text = true ↔
      ∃ front, front <+: c.rest ∧ equalIgnoringCase front text.toList = true := by
  unfold startsWithIgnoringCase afterIgnoringCase?
  dsimp only
  constructor
  · intro h
    split at h
    · next hsame =>
      rw [Bool.and_eq_true] at hsame
      exact ⟨_, List.take_prefix _ _, hsame.2⟩
    · cases h
  · rintro ⟨front, ⟨rest, hrest⟩, hsame⟩
    have hlength : front.length = text.toList.length := by
      simpa using congrArg List.length (eq_of_beq hsame)
    rw [← hrest, ← hlength, List.take_left, hsame, if_pos]
    · rfl
    · simp

theorem through?_eq_none {mark : String} (h : c.through? mark = none) : ¬ mark.toList <:+: c.rest := by
  rintro ⟨before, after, hrest⟩
  obtain ⟨content, rest, hsplit⟩ := Text.exists_splitAtFirst mark.toList before after
  rw [through?, ← hrest, hsplit] at h
  cases h

theorem tagName?_cases (c : Cursor) :
    (c.tagName? = some (c.takeWhile isTagChar) ∧ IsTagName (c.takeWhile isTagChar).1) ∨
      (c.tagName? = none ∧ NotAhead Char.isAlpha c.rest) := by
  unfold tagName?
  split
  · next hpeek =>
    refine .inl ⟨rfl, ?_, c.all_takeWhile isTagChar⟩
    obtain ⟨ch, hch, halpha⟩ := (Option.any_eq_true _ _).1 hpeek
    obtain ⟨rest, hrest⟩ := List.head?_eq_some_iff.1 hch
    have htag : isTagChar ch = true := by
      simp [isTagChar, Char.isAlphanum, halpha]
    refine ⟨ch, rest.takeWhile isTagChar, ?_, halpha⟩
    rw [Cursor.takeWhile, hrest, List.takeWhile_cons_of_pos htag]
  · next hpeek =>
    refine .inr ⟨rfl, fun ch hch => ?_⟩
    have hch : c.peek = some ch := hch
    simpa [hch] using hpeek

theorem quoted?_eq_none (h : c.quoted? = none) (quote : Char) (value more : List Char)
    (hquote : isQuote quote = true) : c.rest ≠ quote :: value ++ quote :: more := by
  intro hrest
  obtain ⟨content, rest, hsplit⟩ := Text.exists_splitAtFirst [quote] value more
  rw [List.append_assoc, List.singleton_append] at hsplit
  rw [quoted?, hrest] at h
  dsimp only [List.cons_append] at h
  have hmark : (quote == '"' || quote == '\'') = true := hquote
  rw [if_pos hmark, hsplit] at h
  cases h

theorem span_of_quoted? {value : List Char} {s : Span} (h : c.quoted? = some ((value, s), d)) :
    s = ⟨c.position + 1, c.position + 1 + byteLength value⟩ := by
  unfold quoted? at h
  split at h
  · split at h
    · obtain ⟨found, -, hfound⟩ := Option.map_eq_some_iff.1 h
      obtain ⟨hvalue, -⟩ := Prod.mk.inj hfound
      obtain ⟨rfl, rfl⟩ := Prod.mk.inj hvalue
      rfl
    · cases h
  · cases h

/-- Every operation keeps its contract. -/
theorem exists_answers (c : Cursor) (op : Operation) :
    ∃ w, c.Reads w (c.perform op).2 ∧
      Answers c.position op w (c.perform op).2.rest (c.perform op).1 := by
  cases op with
  | atEnd => exact ⟨[], c.reads_self, .atEnd List.isEmpty_iff⟩
  | remaining => exact ⟨[], c.reads_self, .remaining⟩
  | spanFrom first => exact ⟨[], c.reads_self, .spanFrom⟩
  | peek => exact ⟨[], c.reads_self, .peek⟩
  | peekSecond => exact ⟨[], c.reads_self, .peekSecond⟩
  | next =>
    obtain ⟨position, rest⟩ := c
    cases rest with
    | nil => exact ⟨[], ⟨rfl, rfl⟩, .noNext⟩
    | cons ch rest => exact ⟨[ch], ⟨rfl, rfl⟩, .next⟩
  | skipBlanks =>
    have hbytes : c.skipBlanks.position - c.position = byteLength c.blanks := by
      rw [c.reads_skipBlanks.position_eq, Nat.add_sub_cancel_left]
    refine ⟨c.blanks, c.reads_skipBlanks, ?_⟩
    rw [perform, hbytes]
    exact .skipBlanks (c.front_takeWhile isBlank)
  | startsWith mark => exact ⟨[], c.reads_self, .startsWith startsWith_iff_prefix⟩
  | startsWithIgnoringCase text =>
    exact ⟨[], c.reads_self, .startsWithIgnoringCase startsWithIgnoringCase_iff⟩
  | consume mark =>
    rw [perform]
    cases h : c.consume? mark with
    | some d => exact ⟨_, reads_of_consume? h, .consume⟩
    | none =>
      refine ⟨[], c.reads_self, .noConsume ?_⟩
      rintro ⟨rest, hrest⟩
      exact consume?_eq_none_iff.1 h rest hrest.symm
  | takeWhile p => exact ⟨_, c.reads_takeWhile p, .takeWhile (c.front_takeWhile p)⟩
  | through mark =>
    rw [perform]
    cases h : c.through? mark with
    | some found =>
      obtain ⟨hreads, hfirst⟩ := reads_of_through? h
      exact ⟨_, hreads, .through hfirst⟩
    | none => exact ⟨[], c.reads_self, .noThrough (through?_eq_none h)⟩
  | tagName =>
    rw [perform]
    rcases c.tagName?_cases with ⟨h, hname⟩ | ⟨h, hahead⟩
    · rw [h]
      exact ⟨_, c.reads_takeWhile isTagChar, .tagName hname (c.notAhead_takeWhile isTagChar)⟩
    · rw [h]
      exact ⟨[], c.reads_self, .noTagName hahead⟩
  | attributeName =>
    exact ⟨_, c.reads_takeWhile isAttributeChar, .attributeName (c.front_takeWhile isAttributeChar)⟩
  | quoted =>
    rw [perform]
    cases h : c.quoted? with
    | some found =>
      obtain ⟨⟨value, s⟩, d⟩ := found
      obtain ⟨quote, hquote, hvalue, hreads⟩ := Tag.reads_of_quoted? h
      obtain rfl := span_of_quoted? h
      exact ⟨_, hreads, .quoted hquote hvalue⟩
    | none => exact ⟨[], c.reads_self, .noQuoted (quoted?_eq_none h)⟩
  | unquoted => exact ⟨_, c.reads_takeWhile isValueChar, .unquoted (c.front_takeWhile isValueChar)⟩

/-! ## Any number of operations -/

variable {source : String}

theorem On.perform (h : c.On source) (op : Operation) : (c.perform op).2.On source := by
  obtain ⟨w, hreads, -⟩ := c.exists_answers op
  exact h.of_reads hreads

theorem On.performAll (h : c.On source) (ops : List Operation) : (c.performAll ops).On source := by
  induction ops generalizing c with
  | nil => exact h
  | cons op ops ih => exact ih (h.perform op)

/-- The bytes of a text are those that the library of strings counts. -/
theorem utf8Len_eq (cs : List Char) : String.utf8Len cs = byteLength cs := by
  induction cs with
  | nil => rfl
  | cons ch cs ih => rw [String.utf8Len_cons, ih, Text.byteLength_cons, Nat.add_comm]

theorem utf8ByteSize_eq (source : String) : source.utf8ByteSize = byteLength source.toList := by
  rw [← utf8Len_eq, ← String.utf8ByteSize_ofList, String.ofList_toList]

/-- A cursor on a source stands between two of its characters. -/
theorem On.isValid (h : c.On source) : (⟨c.position⟩ : String.Pos.Raw).IsValid source := by
  obtain ⟨before, hsource, hposition⟩ := h
  refine String.Pos.Raw.isValid_iff_exists_append.2 ⟨String.ofList before, String.ofList c.rest, ?_, ?_⟩
  · rw [← String.ofList_append, ← hsource, String.ofList_toList]
  · rw [hposition, ← utf8Len_eq, ← String.utf8ByteSize_ofList]
    rfl

/-- What is left of a source is ahead of the cursor. -/
theorem On.slice_rest (h : c.On source) :
    (Span.mk c.position source.utf8ByteSize).slice source = some (String.ofList c.rest) := by
  obtain ⟨before, hsource, hposition⟩ := h
  refine Span.slice_eq_some before [] (by rw [hsource, List.append_nil]) hposition ?_
  rw [utf8ByteSize_eq, hsource, Text.byteLength_append, ← hposition]

/-- The span of a value gives the value. -/
theorem On.slice_value (h : c.On source) {op : Operation} {w rest content : List Char} {s : Span}
    (hrest : c.rest = w ++ rest) (hvalue : Answers c.position op w rest (.value content s)) :
    s.slice source = some (String.ofList content) := by
  obtain ⟨before, hsource, hposition⟩ := h
  rw [hrest] at hsource
  cases hvalue with
  | @quoted quote _ _ hquote =>
    refine Span.slice_eq_some (before ++ [quote]) (quote :: rest) ?_ ?_ rfl
    · simp [hsource]
    · simp [hposition, Tag.utf8Size_of_isQuote hquote]
  | unquoted =>
    exact Span.slice_eq_some before rest (by rw [hsource, List.append_assoc]) hposition rfl

/-- After any operations on a source, the next one leaves the cursor between two characters of the source, no
    farther back than it was, with the rest of the source ahead; it takes exactly the text between the two
    positions, keeps its contract, and moves nothing where it refuses. -/
theorem perform_on_source (source : String) (done : List Operation) (op : Operation) :
    let c := (start source).performAll done
    let reply := (c.perform op).1
    let d := (c.perform op).2
    c.position ≤ d.position ∧ d.position ≤ source.utf8ByteSize ∧
      (⟨d.position⟩ : String.Pos.Raw).IsValid source ∧
      (Span.mk d.position source.utf8ByteSize).slice source = some (String.ofList d.rest) ∧
      (∃ w, (Span.mk c.position d.position).slice source = some (String.ofList w) ∧
        Answers c.position op w d.rest reply) ∧
      (∀ content s, reply = .value content s → s.slice source = some (String.ofList content)) ∧
      (reply.Refuses → d.position = c.position) := by
  intro c reply d
  have hc : c.On source := (on_start source).performAll done
  have hd : d.On source := hc.perform op
  obtain ⟨w, hreads, hanswers⟩ := c.exists_answers op
  refine ⟨?_, hd.isValid.le_utf8ByteSize, hd.isValid, hd.slice_rest, ⟨w, hc.slice hreads, hanswers⟩, ?_, ?_⟩
  · exact hreads.position_eq ▸ Nat.le_add_right _ _
  · intro content s hreply
    have hvalue : Answers c.position op w d.rest (.value content s) := hreply ▸ hanswers
    exact hc.slice_value hreads.rest_eq hvalue
  · intro hrefuses
    have hmoved : d.position = c.position + byteLength w := hreads.position_eq
    rw [hmoved, hanswers.eq_nil_of_refuses hrefuses]
    rfl

end Stencil.Cursor
