import Stencil.Proofs.Text.Trimmed
import Stencil.Template.Loop
import Mathlib.Data.List.Chain
/-
  What the value of a loop directive says.

  A value reads as an iterable, the word `as` and names, with blanks between them and around them.  The names
  are an item, or a key, an arrow and an item.  Since no word `as` with blanks on both sides can stand in
  the names, a value reads in one way at most: it is the last such word that counts, and the iterable may
  have others in it.

  The main statement is that the reader of loops accepts just the values that read so, and answers with
  what they say, unless there are only blanks in front of the word, two of them or more: for those the reader
  takes one of the blanks for the iterable, and is left with an empty one.
-/

namespace Stencil

namespace Foreach

open Text (Blanks NotAhead Trimmed)

/-! ## Names -/

/-- A character that a name goes on with. -/
def isNameChar (c : Char) : Bool := c.isAlphanum || c == '_'

/-- A letter from A to Z in either case or an underscore, and after it such characters and digits. -/
def IsName : List Char → Prop
  | [] => False
  | c :: rest => (c.isAlpha || c == '_') = true ∧ ∀ d ∈ rest, isNameChar d = true

instance : (name : List Char) → Decidable (IsName name)
  | [] => .isFalse id
  | c :: rest => decidable_of_iff ((c.isAlpha || c == '_') = true ∧ rest.all isNameChar = true)
      (and_congr_right fun _ => List.all_eq_true)

/-- The names of a loop: an item, or a key, an arrow and an item. -/
inductive NamesText : List Char → Option String → String → Prop where
  | item {name : List Char} (h : IsName name) : NamesText ('$' :: name) none (String.ofList name)
  | keyed {key before after name : List Char} (hkey : IsName key) (hbefore : Blanks before)
      (hafter : Blanks after) (h : IsName name) :
      NamesText ('$' :: (key ++ (before ++ ('=' :: '>' :: (after ++ ('$' :: name))))))
        (some (String.ofList key)) (String.ofList name)

theorem toNat_of_isNameChar {c : Char} (h : isNameChar c = true) : 48 ≤ c.toNat ∧ c.toNat ≤ 122 := by
  change (((decide ('A'.val ≤ c.val ∧ c.val ≤ 'Z'.val) ||
    decide ('a'.val ≤ c.val) && decide (c.val ≤ 'z'.val)) ||
    decide ('0'.val ≤ c.val) && decide (c.val ≤ '9'.val)) || c == '_') = true at h
  simp only [Bool.or_eq_true, Bool.and_eq_true, decide_eq_true_eq, UInt32.le_iff_toNat_le, beq_iff_eq] at h
  show 48 ≤ c.val.toNat ∧ c.val.toNat ≤ 122
  rcases h with ((⟨hlow, hhigh⟩ | ⟨hlow, hhigh⟩) | ⟨hlow, hhigh⟩) | rfl
  · exact ⟨Nat.le_trans (by decide) hlow, Nat.le_trans hhigh (by decide)⟩
  · exact ⟨Nat.le_trans (by decide) hlow, Nat.le_trans hhigh (by decide)⟩
  · exact ⟨Nat.le_trans (by decide) hlow, Nat.le_trans hhigh (by decide)⟩
  · decide

theorem isBlank_of_isNameChar {c : Char} (h : isNameChar c = true) : Text.isBlank c = false := by
  obtain ⟨hlow, hhigh⟩ := toNat_of_isNameChar h
  have houtside : ∀ range ∈ Text.blankRanges, range.2 < 48 ∨ 122 < range.1 := by decide
  rw [Bool.eq_false_iff]
  intro hblank
  obtain ⟨range, hmem, hfrom, hto⟩ := Text.inRanges_iff.1 hblank
  rcases houtside range hmem with hbelow | habove
  · omega
  · omega

theorem isNameChar_of_isBlank {c : Char} (h : Text.isBlank c = true) : isNameChar c = false := by
  rw [Bool.eq_false_iff]
  intro hname
  rw [isBlank_of_isNameChar hname] at h
  cases h

theorem IsName.isNameChar {name : List Char} (h : IsName name) : ∀ c ∈ name, isNameChar c = true := by
  cases name with
  | nil => cases h
  | cons c rest =>
    refine List.forall_mem_cons.2 ⟨?_, h.2⟩
    have hc := h.1
    simp only [Foreach.isNameChar, Char.isAlphanum, Bool.or_eq_true] at hc ⊢
    rcases hc with hc | hc
    · exact .inl (.inl hc)
    · exact .inr hc

theorem IsName.ne_nil {name : List Char} (h : IsName name) : name ≠ [] := by
  rintro rfl
  exact h

/-- A dollar sign and a name are read as far as the name goes. -/
theorem name?_eq_some_iff {cs rest : List Char} {s : String} : name? cs = some (s, rest) ↔
    ∃ name, IsName name ∧ s = String.ofList name ∧ cs = '$' :: (name ++ rest) ∧
      NotAhead isNameChar rest := by
  constructor
  · intro h
    unfold name? at h
    split at h
    · next c cs' =>
      split at h
      · next hc =>
        obtain ⟨hname, hrest⟩ := Prod.mk.inj (Option.some.inj h)
        refine ⟨c :: cs'.takeWhile isNameChar, ⟨hc, ?_⟩, hname.symm, ?_, ?_⟩
        · exact fun d hd => List.all_eq_true.1 List.all_takeWhile d hd
        · rw [← hrest]
          exact congrArg ('$' :: c :: ·) List.takeWhile_append_dropWhile.symm
        · rw [← hrest]
          exact Text.notAhead_dropWhile _ _
      · cases h
    · cases h
  · rintro ⟨name, hname, rfl, rfl, hrest⟩
    cases name with
    | nil => cases hname
    | cons c name =>
      obtain ⟨hc, hname⟩ := hname
      have htake : (name ++ rest).takeWhile isNameChar = name := hrest.takeWhile_append hname
      have hdrop : (name ++ rest).dropWhile isNameChar = rest := hrest.dropWhile_append hname
      rw [List.cons_append, name?, if_pos hc]
      exact congrArg some (Prod.ext (congrArg (fun cs => String.ofList (c :: cs)) htake) hdrop)

/-- Blanks end a name. -/
theorem notAhead_of_blanks {cs : List Char} (h : Blanks cs) : NotAhead isNameChar cs :=
  h.notAhead fun _ => isNameChar_of_isBlank

/-- So does an arrow, also behind blanks. -/
theorem notAhead_of_arrow {before rest : List Char} (h : Blanks before) :
    NotAhead isNameChar (before ++ '=' :: rest) := by
  cases before with
  | nil => exact Text.notAhead_cons (by decide)
  | cons c before => exact Text.notAhead_cons (isNameChar_of_isBlank (h c List.mem_cons_self))

/-- What is read as names are names, up to blanks at the end. -/
theorem namesText_of_names? {cs : List Char} {key : Option String} {item : String}
    (h : names? cs = some (key, item)) :
    ∃ names after, cs = names ++ after ∧ NamesText names key item ∧ Blanks after := by
  obtain ⟨⟨first, rest⟩, hfirst, hread⟩ := Option.bind_eq_some_iff.1 h
  obtain ⟨name, hname, rfl, rfl, -⟩ := name?_eq_some_iff.1 hfirst
  obtain ⟨before, hrest, hbefore⟩ := Text.exists_trimStart rest
  dsimp only at hread
  split at hread
  · next hend =>
    obtain ⟨rfl, rfl⟩ := Prod.mk.inj (Option.some.inj hread)
    exact ⟨'$' :: name, rest, rfl, .item hname, Text.trimStart_eq_nil_iff.1 hend⟩
  · next behind harrow =>
    obtain ⟨⟨second, more⟩, hsecond, hlast⟩ := Option.bind_eq_some_iff.1 hread
    obtain ⟨name', hname', rfl, hmore, -⟩ := name?_eq_some_iff.1 hsecond
    obtain ⟨after, hbehind, hafter⟩ := Text.exists_trimStart behind
    dsimp only at hlast
    split at hlast
    · next hend =>
      obtain ⟨rfl, rfl⟩ := Prod.mk.inj (Option.some.inj hlast)
      refine ⟨_, more, ?_, .keyed hname hbefore hafter hname',
        Text.trimStart_eq_nil_iff.1 (List.isEmpty_iff.1 hend)⟩
      rw [hrest, harrow, hbehind, hmore]
      simp only [List.cons_append, List.append_assoc]
    · cases hlast
  · cases hread

/-- Names are read, and blanks behind them are left out. -/
theorem NamesText.names?_eq {names after : List Char} {key : Option String} {item : String}
    (h : NamesText names key item) (hafter : Blanks after) : names? (names ++ after) = some (key, item) := by
  have hlast : ∀ {name : List Char}, IsName name →
      name? ('$' :: (name ++ after)) = some (String.ofList name, after) :=
    fun hname => name?_eq_some_iff.2 ⟨_, hname, rfl, rfl, notAhead_of_blanks hafter⟩
  cases h with
  | item hname =>
    simp only [names?, List.cons_append, hlast hname, Option.bind_eq_bind, Option.bind_some,
      Text.trimStart_eq_nil_iff.2 hafter]
  | @keyed keyName before between name hkey hbefore hbetween hname =>
    have hfirst : name? ('$' :: (keyName ++ (before ++ ('=' :: '>' :: (between ++ ('$' :: (name ++ after))))))) =
        some (String.ofList keyName, before ++ ('=' :: '>' :: (between ++ ('$' :: (name ++ after))))) :=
      name?_eq_some_iff.2 ⟨keyName, hkey, rfl, rfl, notAhead_of_arrow hbefore⟩
    have harrow : Text.trimStart (before ++ ('=' :: '>' :: (between ++ ('$' :: (name ++ after))))) =
        '=' :: '>' :: (between ++ ('$' :: (name ++ after))) :=
      Text.trimStart_append hbefore (Text.notAhead_cons (by decide))
    have hitem : Text.trimStart (between ++ ('$' :: (name ++ after))) = '$' :: (name ++ after) :=
      Text.trimStart_append hbetween (Text.notAhead_cons (by decide))
    simp only [names?, List.cons_append, List.append_assoc, hfirst, harrow, hitem, hlast hname,
      Option.bind_eq_bind, Option.bind_some, Text.trimStart_eq_nil_iff.2 hafter]
    rfl

/-- The word `as`, a gap behind it, and names up to blanks at the end. -/
structure NamesAhead (cs gap names trail : List Char) (key : Option String) (item : String) : Prop where
  text : cs = 'a' :: 's' :: (gap ++ (names ++ trail))
  gap_blanks : Blanks gap
  gap_ne_nil : gap ≠ []
  names_text : NamesText names key item
  trail_blanks : Blanks trail

/-- Names begin with a dollar sign. -/
theorem NamesText.head?_append {names : List Char} {key : Option String} {item : String}
    (h : NamesText names key item) (trail : List Char) : (names ++ trail).head? = some '$' := by
  cases h with
  | item _ => rfl
  | keyed _ _ _ _ => rfl

theorem NamesText.notAhead {names : List Char} {key : Option String} {item : String}
    (h : NamesText names key item) (trail : List Char) : NotAhead Text.isBlank (names ++ trail) := by
  intro c hc
  rw [h.head?_append trail] at hc
  obtain rfl : '$' = c := Option.some.inj hc
  decide

/-- Names end as their last name does. -/
theorem NamesText.notAhead_reverse {names : List Char} {key : Option String} {item : String}
    (h : NamesText names key item) : NotAhead Text.isBlank names.reverse := by
  have hlast : ∃ front name, names = front ++ name ∧ IsName name := by
    cases h with
    | @item name hname => exact ⟨['$'], name, rfl, hname⟩
    | @keyed keyName before after name hkey hbefore hafter hname =>
      refine ⟨'$' :: (keyName ++ (before ++ ('=' :: '>' :: (after ++ ['$'])))), name, ?_, hname⟩
      simp only [List.cons_append, List.append_assoc, List.nil_append]
  obtain ⟨front, name, rfl, hname⟩ := hlast
  have hne : name.reverse ≠ [] := mt List.reverse_eq_nil_iff.1 hname.ne_nil
  rw [List.reverse_append, Text.notAhead_append hne]
  intro c hc
  exact isBlank_of_isNameChar (hname.isNameChar c (List.mem_reverse.1 (List.mem_of_mem_head? hc)))

theorem NamesAhead.binding?_eq {cs gap names trail : List Char} {key : Option String} {item : String}
    (h : NamesAhead cs gap names trail key item) : binding? cs = some (key, item) := by
  obtain ⟨rfl, hgap, hne, hnames, htrail⟩ := h
  cases gap with
  | nil => exact absurd rfl hne
  | cons c gap =>
    obtain ⟨hc, hgap⟩ := List.forall_mem_cons.1 hgap
    rw [List.cons_append, binding?, if_pos hc, Text.trimStart_append hgap (hnames.notAhead trail)]
    exact hnames.names?_eq htrail

theorem binding?_eq_some_iff {cs : List Char} {key : Option String} {item : String} :
    binding? cs = some (key, item) ↔ ∃ gap names trail, NamesAhead cs gap names trail key item := by
  constructor
  · intro h
    unfold binding? at h
    split at h
    · next c rest =>
      split at h
      · next hc =>
        obtain ⟨gap, hrest, hgap⟩ := Text.exists_trimStart rest
        obtain ⟨names, trail, hread, hnames, htrail⟩ := namesText_of_names? h
        refine ⟨c :: gap, names, trail, ?_, List.forall_mem_cons.2 ⟨hc, hgap⟩, List.cons_ne_nil _ _,
          hnames, htrail⟩
        rw [← hread, List.cons_append, ← hrest]
      · cases h
    · cases h
  · rintro ⟨gap, names, trail, hahead⟩
    exact hahead.binding?_eq

/-! ## One word at most -/

/-- No blank is followed by the first letter of the word `as`. -/
def Wordless (cs : List Char) : Prop := cs.IsChain fun c d => Text.isBlank c = true → d ≠ 'a'

namespace Wordless

theorem append {xs ys : List Char} (hxs : Wordless xs) (hys : Wordless ys) (hhead : ys.head? ≠ some 'a') :
    Wordless (xs ++ ys) := by
  refine List.IsChain.append hxs hys fun c _ d hd _ heq => hhead ?_
  rw [heq] at hd
  exact hd

theorem cons {c : Char} {cs : List Char} (h : Wordless cs) (hc : Text.isBlank c = false) :
    Wordless (c :: cs) := by
  refine List.IsChain.cons h fun d _ hblank => ?_
  rw [hc] at hblank
  cases hblank

theorem of_blanks {cs : List Char} (h : Blanks cs) : Wordless cs := by
  refine List.Pairwise.isChain (List.pairwise_of_forall_mem_list fun c _ d hd _ heq => ?_)
  have hblank := h d hd
  rw [heq] at hblank
  exact absurd hblank (by decide)

theorem of_isName {name : List Char} (h : IsName name) : Wordless name := by
  refine List.Pairwise.isChain (List.pairwise_of_forall_mem_list fun c hc d _ hblank => ?_)
  rw [isBlank_of_isNameChar (h.isNameChar c hc)] at hblank
  cases hblank

/-- What stands behind a blank does not begin with the word. -/
theorem head?_ne {front rest : List Char} {c : Char} (h : Wordless (front ++ c :: rest))
    (hc : Text.isBlank c = true) : rest.head? ≠ some 'a' := by
  intro hhead
  cases rest with
  | nil => cases hhead
  | cons d rest =>
    obtain rfl : d = 'a' := Option.some.inj hhead
    have hpair := (List.isChain_append_cons_cons.1 h).2.1
    exact hpair hc rfl

end Wordless

theorem head?_ne_of_blanks {cs : List Char} (h : Blanks cs) : cs.head? ≠ some 'a' := by
  intro hhead
  exact absurd (h 'a' (List.mem_of_mem_head? hhead)) (by decide)

theorem NamesText.wordless {names : List Char} {key : Option String} {item : String}
    (h : NamesText names key item) : Wordless names := by
  cases h with
  | item hname => exact (Wordless.of_isName hname).cons (by decide)
  | @keyed key before after name hkey hbefore hafter hname =>
    have hitem : Wordless (after ++ ('$' :: name)) :=
      (Wordless.of_blanks hafter).append ((Wordless.of_isName hname).cons (by decide)) (by simp)
    have harrow : Wordless ('=' :: '>' :: (after ++ ('$' :: name))) :=
      (hitem.cons (by decide)).cons (by decide)
    have hbehind : Wordless (before ++ ('=' :: '>' :: (after ++ ('$' :: name)))) :=
      (Wordless.of_blanks hbefore).append harrow (by simp)
    refine ((Wordless.of_isName hkey).append hbehind ?_).cons (by decide)
    cases before with
    | nil => simp
    | cons c before =>
      show (c :: before).head? ≠ some 'a'
      exact head?_ne_of_blanks hbefore

/-- Behind the word `as` that counts there is no other one. -/
theorem NamesAhead.wordless {cs gap names trail : List Char} {key : Option String} {item : String}
    (h : NamesAhead cs gap names trail key item) : Wordless (gap ++ (names ++ trail)) := by
  have hnames : Wordless (names ++ trail) :=
    h.names_text.wordless.append (Wordless.of_blanks h.trail_blanks) (head?_ne_of_blanks h.trail_blanks)
  refine (Wordless.of_blanks h.gap_blanks).append hnames ?_
  rw [h.names_text.head?_append]
  decide

/-- Once names can be read behind a word, they can be read behind no later one. -/
theorem binding?_behind {front rest : List Char} {c : Char} {names : Option String × String}
    (h : binding? (front ++ c :: rest) = some names) (hc : Text.isBlank c = true) : binding? rest = none := by
  obtain ⟨key, item⟩ := names
  obtain ⟨gap, text, trail, hahead⟩ := binding?_eq_some_iff.1 h
  have hwordless : Wordless (front ++ c :: rest) := by
    rw [hahead.text]
    exact (hahead.wordless.cons (by decide)).cons (by decide)
  rw [Option.eq_none_iff_forall_ne_some]
  rintro ⟨key', item'⟩ hrest
  obtain ⟨gap', text', trail', hahead'⟩ := binding?_eq_some_iff.1 hrest
  apply hwordless.head?_ne hc
  rw [hahead'.text]
  rfl

/-- What stands before the word ends in a blank, and something comes before that blank. -/
theorem canPrecede_append {front before : List Char} {c : Char} :
    canPrecede ((front ++ [c]).reverse ++ before) = true ↔
      Text.isBlank c = true ∧ front.reverse ++ before ≠ [] := by
  rw [List.reverse_append, List.reverse_singleton, List.append_assoc, List.singleton_append]
  cases front.reverse ++ before with
  | nil => exact ⟨fun h => absurd h Bool.false_ne_true, fun h => absurd rfl h.2⟩
  | cons d rest => exact ⟨fun h => ⟨h, List.cons_ne_nil _ _⟩, fun h => h.1⟩

/-- The word that is found has names behind it. -/
theorem exists_of_split? {before cs iterable : List Char} {key : Option String} {item : String}
    (h : split? before cs = some (iterable, key, item)) : ∃ front rest, cs = front ++ rest ∧
      canPrecede (front.reverse ++ before) = true ∧ binding? rest = some (key, item) ∧
      iterable = Text.trim (before.reverse ++ front) := by
  induction cs generalizing before with
  | nil => cases h
  | cons c cs ih =>
    rw [split?] at h
    split at h
    · next key' item' hread =>
      obtain ⟨rfl, hnames⟩ := Prod.mk.inj (Option.some.inj h)
      obtain ⟨rfl, rfl⟩ := Prod.mk.inj hnames
      obtain ⟨hbefore, hbinding⟩ := Option.ite_none_right_eq_some.1 hread
      exact ⟨[], c :: cs, rfl, hbefore, hbinding, by rw [List.append_nil]⟩
    · obtain ⟨front, rest, rfl, hfront, hbinding, rfl⟩ := ih h
      refine ⟨c :: front, rest, rfl, ?_, hbinding, ?_⟩
      · rw [List.reverse_cons, List.append_assoc]
        exact hfront
      · rw [List.reverse_cons, List.append_assoc]
        rfl

/-- No word in front of one with names behind it has names behind it too. -/
theorem binding?_before {front rest before : List Char} {names : Option String × String}
    (hne : front ≠ []) (hfront : canPrecede (front.reverse ++ before) = true)
    (hbinding : binding? rest = some names) : binding? (front ++ rest) = none := by
  rw [Option.eq_none_iff_forall_ne_some]
  intro others hread
  have hend := List.dropLast_append_getLast hne
  rw [← hend] at hfront
  rw [← hend, List.append_assoc, List.singleton_append] at hread
  rw [binding?_behind hread (canPrecede_append.1 hfront).1] at hbinding
  cases hbinding

/-- A word with names behind it is found. -/
theorem split?_append {before front rest : List Char} {key : Option String} {item : String}
    (hfront : canPrecede (front.reverse ++ before) = true) (hbinding : binding? rest = some (key, item)) :
    split? before (front ++ rest) = some (Text.trim (before.reverse ++ front), key, item) := by
  induction front generalizing before with
  | nil =>
    cases rest with
    | nil => cases hbinding
    | cons c rest =>
      rw [List.reverse_nil, List.nil_append] at hfront
      rw [List.nil_append, split?, if_pos hfront, hbinding, List.append_nil]
  | cons c front ih =>
    have hnone := binding?_before (List.cons_ne_nil c front) hfront hbinding
    have htrim : (c :: before).reverse ++ front = before.reverse ++ (c :: front) := by
      rw [List.reverse_cons, List.append_assoc]
      rfl
    rw [List.reverse_cons, List.append_assoc] at hfront
    rw [List.cons_append] at hnone ⊢
    rw [split?, hnone, ite_self, ← htrim]
    exact ih hfront

/-- So it is for one behind blanks that are not the whole of what comes before it. -/
theorem split?_of_blanks {front blanks rest gap names trail : List Char} {key : Option String}
    {item : String} (hblanks : Blanks blanks) (hne : blanks ≠ []) (hlength : 2 ≤ (front ++ blanks).length)
    (h : NamesAhead rest gap names trail key item) :
    split? [] (front ++ blanks ++ rest) = some (Text.trim (front ++ blanks), key, item) := by
  refine split?_append ?_ h.binding?_eq
  have hend := List.dropLast_append_getLast hne
  rw [← hend, ← List.append_assoc, canPrecede_append, List.append_nil]
  refine ⟨hblanks _ (List.getLast_mem hne), fun hnil => ?_⟩
  have hempty := congrArg List.length (List.reverse_eq_nil_iff.1 hnil)
  rw [List.length_append, List.length_dropLast, List.length_nil] at hempty
  rw [List.length_append] at hlength
  omega

/-! ## Readings -/

/-- The parts of the value of a loop: an iterable, a gap, the word `as`, another gap and names, with blanks
    before and after them; and what the names are. -/
structure Reading where
  before : List Char
  iterable : List Char
  gap : List Char
  behind : List Char
  names : List Char
  after : List Char
  key : Option String
  item : String

namespace Reading

/-- A value reads as these parts. -/
structure Of (r : Reading) (value : List Char) : Prop where
  text : value = r.before ++ r.iterable ++ r.gap ++ ['a', 's'] ++ r.behind ++ r.names ++ r.after
  before_blanks : Blanks r.before
  iterable_trimmed : Trimmed r.iterable
  gap_blanks : Blanks r.gap
  gap_ne_nil : r.gap ≠ []
  behind_blanks : Blanks r.behind
  behind_ne_nil : r.behind ≠ []
  names_text : NamesText r.names r.key r.item
  after_blanks : Blanks r.after

/-- The loop that a value with these parts describes. -/
def loop (r : Reading) (value : String) (position : Nat) (span : Span) : Foreach :=
  ⟨value, String.ofList r.iterable, r.key, r.item, position, span⟩

namespace Of

variable {r r' : Reading} {value : List Char}

theorem namesAhead (h : r.Of value) :
    NamesAhead ('a' :: 's' :: (r.behind ++ (r.names ++ r.after))) r.behind r.names r.after r.key r.item :=
  ⟨rfl, h.behind_blanks, h.behind_ne_nil, h.names_text, h.after_blanks⟩

/-- The text of a value, put together from its end. -/
theorem text_eq (h : r.Of value) :
    value = r.before ++ (r.iterable ++ (r.gap ++ ('a' :: 's' :: (r.behind ++ (r.names ++ r.after))))) := by
  rw [h.text]
  simp only [List.append_assoc, List.cons_append, List.nil_append]

/-- A reading is what the reader of loops finds. -/
theorem split?_eq (h : r.Of value) : split? [] value = some (r.iterable, r.key, r.item) := by
  have hlength : 2 ≤ (r.before ++ r.iterable ++ r.gap).length := by
    have hiterable := List.length_pos_iff.2 h.iterable_trimmed.ne_nil
    have hgap := List.length_pos_iff.2 h.gap_ne_nil
    simp only [List.length_append]
    omega
  have htext : value =
      (r.before ++ r.iterable ++ r.gap) ++ ('a' :: 's' :: (r.behind ++ (r.names ++ r.after))) := by
    rw [h.text_eq]
    simp only [List.append_assoc]
  rw [htext, split?_of_blanks h.gap_blanks h.gap_ne_nil hlength h.namesAhead,
    Text.trim_append h.before_blanks h.iterable_trimmed h.gap_blanks]

/-- Behind the word that a reading is at, no blank is followed by another such word. -/
theorem wordless (h : r.Of value) : Wordless (r.behind ++ (r.names ++ r.after)) :=
  h.namesAhead.wordless

/-- There is one reading at most: the iterable is the one that is found, and between it and the names
    each part ends where the blanks end. -/
theorem unique (h : r.Of value) (h' : r'.Of value) : r = r' := by
  have hfound := h.split?_eq.symm.trans h'.split?_eq
  obtain ⟨hiterable, hnames⟩ := Prod.mk.inj (Option.some.inj hfound)
  obtain ⟨hkey, hitem⟩ := Prod.mk.inj hnames
  have htext := h.text_eq.symm.trans h'.text_eq
  obtain ⟨hbefore, htext⟩ := Text.blanks_append_inj h.before_blanks h'.before_blanks
    ((Text.notAhead_append h.iterable_trimmed.ne_nil).2 h.iterable_trimmed.front)
    ((Text.notAhead_append h'.iterable_trimmed.ne_nil).2 h'.iterable_trimmed.front) htext
  rw [hiterable] at htext
  obtain ⟨hgap, htext⟩ := Text.blanks_append_inj h.gap_blanks h'.gap_blanks
    (Text.notAhead_cons (by decide)) (Text.notAhead_cons (by decide)) (List.append_cancel_left htext)
  obtain ⟨hbehind, htext⟩ := Text.blanks_append_inj h.behind_blanks h'.behind_blanks
    (h.names_text.notAhead _) (h'.names_text.notAhead _) (List.cons.inj (List.cons.inj htext).2).2
  -- the names end where the blanks at the end of the text begin
  have hreverse := congrArg List.reverse htext
  rw [List.reverse_append, List.reverse_append] at hreverse
  obtain ⟨hafter, hnames⟩ := Text.blanks_append_inj h.after_blanks.reverse h'.after_blanks.reverse
    h.names_text.notAhead_reverse h'.names_text.notAhead_reverse hreverse
  cases r
  cases r'
  simp only [mk.injEq]
  exact ⟨hbefore, hiterable, hgap, hbehind, List.reverse_inj.1 hnames, List.reverse_inj.1 hafter, hkey, hitem⟩

end Of

end Reading

/-- A value that has only blanks where the iterable should be, and two of them or more. -/
def LacksIterable (value : List Char) : Prop :=
  ∃ before rest gap names trail key item, value = before ++ rest ∧ Blanks before ∧ 2 ≤ before.length ∧
    NamesAhead rest gap names trail key item

/-- A value that lacks an iterable begins with two blanks. -/
theorem LacksIterable.blanks_first {value : List Char} (h : LacksIterable value) :
    ∃ c d rest, value = c :: d :: rest ∧ Text.isBlank c = true ∧ Text.isBlank d = true := by
  obtain ⟨before, rest, _, _, _, _, _, rfl, hblanks, hlength, -⟩ := h
  match before, hlength with
  | c :: d :: before, _ =>
    exact ⟨c, d, before ++ rest, rfl, hblanks c (by simp), hblanks d (by simp)⟩

/-- What the reader of loops finds is a reading, or an empty iterable for a value that lacks one. -/
theorem reading_of_split? {value iterable : List Char} {key : Option String} {item : String}
    (h : split? [] value = some (iterable, key, item)) :
    (∃ r : Reading, r.Of value ∧ r.iterable = iterable ∧ r.key = key ∧ r.item = item) ∨
      LacksIterable value := by
  obtain ⟨front, rest, rfl, hfront, hbinding, rfl⟩ := exists_of_split? h
  obtain ⟨behind, names, after, hahead⟩ := binding?_eq_some_iff.1 hbinding
  have hne : front ≠ [] := by
    rintro rfl
    cases hfront
  have hend := List.dropLast_append_getLast hne
  rw [← hend, canPrecede_append, List.append_nil] at hfront
  obtain ⟨hblank, hsecond⟩ := hfront
  rcases Text.blanks_or_trimmed front with hblanks | ⟨before, gap, hsplit, hbefore, htrimmed, hgap⟩
  · refine .inr ⟨front, rest, behind, names, after, key, item, rfl, hblanks, ?_, hahead⟩
    have hlength := List.length_pos_iff.2 (mt List.reverse_eq_nil_iff.2 hsecond)
    rw [List.length_dropLast] at hlength
    omega
  · refine .inl ⟨⟨before, Text.trim front, gap, behind, names, after, key, item⟩, ?_, rfl, rfl, rfl⟩
    refine ⟨?_, hbefore, htrimmed, hgap, ?_, hahead.gap_blanks, hahead.gap_ne_nil, hahead.names_text,
      hahead.trail_blanks⟩
    · simp only [List.append_assoc, List.cons_append, List.nil_append]
      rw [← hahead.text, ← List.append_assoc, ← List.append_assoc, ← hsplit]
    · -- without a gap the text before the word would end as the iterable does
      rintro rfl
      have hlast : front.reverse.head? = some (front.getLast hne) := by
        rw [List.head?_reverse, List.getLast?_eq_some_getLast hne]
      rw [List.append_nil] at hsplit
      have hback : NotAhead Text.isBlank front.reverse := by
        rw [hsplit, List.reverse_append,
          Text.notAhead_append (mt List.reverse_eq_nil_iff.1 htrimmed.ne_nil)]
        exact htrimmed.back
      rw [hback _ hlast] at hblank
      cases hblank

/-- For a value that lacks an iterable the reader finds an empty one. -/
theorem LacksIterable.split?_eq {value : List Char} (h : LacksIterable value) :
    ∃ key item, split? [] value = some ([], key, item) := by
  obtain ⟨before, rest, gap, names, trail, key, item, rfl, hblanks, hlength, hahead⟩ := h
  have hne : before ≠ [] := by
    rintro rfl
    exact absurd hlength (by decide)
  have hfound : split? [] ([] ++ before ++ rest) = some (Text.trim ([] ++ before), key, item) :=
    split?_of_blanks hblanks hne hlength hahead
  rw [List.nil_append, Text.trim_of_blanks hblanks] at hfound
  exact ⟨key, item, hfound⟩

/-- And it has no reading. -/
theorem LacksIterable.not_of {value : List Char} (h : LacksIterable value) (r : Reading) : ¬ r.Of value := by
  intro hr
  obtain ⟨key, item, hsplit⟩ := h.split?_eq
  rw [hr.split?_eq] at hsplit
  exact hr.iterable_trimmed.ne_nil (Prod.mk.inj (Option.some.inj hsplit)).1

theorem parse_eq_ok_iff {value : String} {position : Nat} {span : Span} {loop : Foreach} :
    parse value position span = .ok loop ↔ ∃ iterable key item,
      split? [] value.toList = some (iterable, key, item) ∧
        loop = ⟨value, String.ofList iterable, key, item, position, span⟩ := by
  unfold parse
  split
  · next iterable key item hsplit =>
    rw [hsplit]
    constructor
    · intro h
      exact ⟨iterable, key, item, rfl, (Except.ok.inj h).symm⟩
    · rintro ⟨_, _, _, hparts, rfl⟩
      obtain ⟨rfl, hnames⟩ := Prod.mk.inj (Option.some.inj hparts)
      obtain ⟨rfl, rfl⟩ := Prod.mk.inj hnames
      rfl
  · next hnone =>
    rw [hnone]
    constructor
    · intro h
      cases h
    · rintro ⟨_, _, _, hparts, _⟩
      cases hparts

/-- A value is accepted if and only if it reads as a loop, unless it lacks the iterable, and the loop is the one
    it reads as.  There is one reading at most, and it is at the last word `as` that stands between blanks. -/
theorem parse_reading (value : String) (position : Nat) (span : Span) (h : ¬ LacksIterable value.toList) :
    (∀ loop, parse value position span = .ok loop ↔
        ∃ r : Reading, r.Of value.toList ∧ loop = r.loop value position span) ∧
      (∀ r : Reading, r.Of value.toList → Wordless (r.behind ++ (r.names ++ r.after))) ∧
      ∀ r r' : Reading, r.Of value.toList → r'.Of value.toList → r = r' := by
  refine ⟨fun loop => ?_, fun r hr => hr.wordless, fun r r' hr hr' => hr.unique hr'⟩
  rw [parse_eq_ok_iff]
  constructor
  · rintro ⟨iterable, key, item, hsplit, rfl⟩
    obtain ⟨r, hr, rfl, rfl, rfl⟩ := (reading_of_split? hsplit).resolve_right h
    exact ⟨r, hr, rfl⟩
  · rintro ⟨r, hr, rfl⟩
    exact ⟨r.iterable, r.key, r.item, hr.split?_eq, rfl⟩

/-- The iterable may hold the word as well. -/
theorem parse_reading_word_in_iterable :
    (¬ LacksIterable " $a as $b as $k=>$v ".toList) ∧
      (∃ r : Reading, r.Of " $a as $b as $k=>$v ".toList ∧ String.ofList r.iterable = "$a as $b") ∧
      parse " $a as $b as $k=>$v " 0 ⟨0, 0⟩ =
        .ok ⟨" $a as $b as $k=>$v ", "$a as $b", some "k", "v", 0, ⟨0, 0⟩⟩ := by
  have hiterable : ¬ LacksIterable " $a as $b as $k=>$v ".toList := by
    intro h
    obtain ⟨c, d, rest, heq, -, hd⟩ := h.blanks_first
    obtain rfl : '$' = d := (List.cons.inj (List.cons.inj heq).2).1
    exact absurd hd (by decide)
  let r : Reading := ⟨[' '], "$a as $b".toList, [' '], [' '], "$k=>$v".toList, [' '], some "k", "v"⟩
  have hkey : IsName ['k'] := by decide
  have hitem : IsName ['v'] := by decide
  have hnone : Blanks [] := by decide
  have hnames : NamesText "$k=>$v".toList (some "k") "v" := .keyed hkey hnone hnone hitem
  have hr : r.Of " $a as $b as $k=>$v ".toList :=
    ⟨by decide, by decide, by decide, by decide, by decide, by decide, by decide, hnames, by decide⟩
  exact ⟨hiterable, ⟨r, hr, rfl⟩, ((parse_reading _ 0 ⟨0, 0⟩ hiterable).1 _).2 ⟨r, hr, rfl⟩⟩

/-- Behind one blank the word needs an iterable, but two blanks stand in for one. -/
theorem parse_blanks_for_iterable :
    parse "  as $x" 0 ⟨0, 0⟩ = .ok ⟨"  as $x", "", none, "x", 0, ⟨0, 0⟩⟩ ∧
      (∀ r : Reading, ¬ r.Of "  as $x".toList) ∧
      parse " as $x" 0 ⟨0, 0⟩ = .error ⟨.loopExpression " as $x", ⟨0, 0⟩⟩ := by
  have hname : IsName ['x'] := by decide
  have hahead : NamesAhead "as $x".toList [' '] "$x".toList [] none "x" :=
    ⟨rfl, by decide, by decide, .item hname, by decide⟩
  have hlacks : LacksIterable "  as $x".toList :=
    ⟨[' ', ' '], _, _, _, _, _, _, rfl, by decide, by decide, hahead⟩
  exact ⟨rfl, hlacks.not_of, rfl⟩

end Foreach

end Stencil
