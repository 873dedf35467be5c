import Stencil.Proofs.Template.Reads
import Stencil.Text.Blank
/-
  Blanks around a text.

  A text is made of blanks alone, or it is a trimmed text between blanks, and which one is told by the
  text: the blanks end where something else begins.  Trimming gives that trimmed text, and nothing where
  there are only blanks.
-/

namespace Stencil.Text

/-- A text of blanks alone. -/
def Blanks (cs : List Char) : Prop := ∀ c ∈ cs, isBlank c = true

/-- A text with something in it, and no blank at either end. -/
structure Trimmed (cs : List Char) : Prop where
  ne_nil : cs ≠ []
  front : NotAhead isBlank cs
  back : NotAhead isBlank cs.reverse

theorem notAhead_cons {p : Char → Bool} {c : Char} {cs : List Char} (h : p c = false) :
    NotAhead p (c :: cs) := by
  intro d hd
  obtain rfl : c = d := Option.some.inj hd
  exact h

instance (cs : List Char) : Decidable (Blanks cs) := decidable_of_iff (cs.all isBlank = true) List.all_eq_true

instance (p : Char → Bool) : (cs : List Char) → Decidable (NotAhead p cs)
  | [] => .isTrue fun _ hc => by cases hc
  | c :: _ => decidable_of_iff (p c = false) ⟨notAhead_cons, fun h => h c rfl⟩

instance (cs : List Char) : Decidable (Trimmed cs) :=
  decidable_of_iff (cs ≠ [] ∧ NotAhead isBlank cs ∧ NotAhead isBlank cs.reverse)
    ⟨fun ⟨hne, hfront, hback⟩ => ⟨hne, hfront, hback⟩, fun h => ⟨h.ne_nil, h.front, h.back⟩⟩

theorem Blanks.reverse {cs : List Char} (h : Blanks cs) : Blanks cs.reverse :=
  fun c hc => h c (List.mem_reverse.1 hc)

theorem blanks_takeWhile (cs : List Char) : Blanks (cs.takeWhile isBlank) :=
  fun c hc => List.all_eq_true.1 List.all_takeWhile c hc

/-- A text that begins with blanks begins with none of the characters that are not blank. -/
theorem Blanks.notAhead {p : Char → Bool} {cs : List Char} (h : Blanks cs)
    (hp : ∀ c, isBlank c = true → p c = false) : NotAhead p cs := by
  cases cs with
  | nil => intro c hc; cases hc
  | cons d cs => exact notAhead_cons (hp d (h d List.mem_cons_self))

/-- Blanks that do not begin with one are none. -/
theorem Blanks.eq_nil {cs : List Char} (h : Blanks cs) (hfront : NotAhead isBlank cs) : cs = [] := by
  cases cs with
  | nil => rfl
  | cons c cs =>
    have hblank := h c List.mem_cons_self
    rw [hfront c rfl] at hblank
    cases hblank

theorem trimStart_append {before cs : List Char} (hbefore : Blanks before) (h : NotAhead isBlank cs) :
    trimStart (before ++ cs) = cs :=
  h.dropWhile_append hbefore

theorem trimEnd_append {cs after : List Char} (h : NotAhead isBlank cs.reverse) (hafter : Blanks after) :
    trimEnd (cs ++ after) = cs := by
  rw [trimEnd, List.reverse_append, h.dropWhile_append hafter.reverse, List.reverse_reverse]

/-- Blanks around a text that is trimmed are what trimming takes away. -/
theorem trim_append {before cs after : List Char} (hbefore : Blanks before) (h : Trimmed cs)
    (hafter : Blanks after) : trim (before ++ cs ++ after) = cs := by
  have hfront : NotAhead isBlank (cs ++ after) := (notAhead_append h.ne_nil).2 h.front
  rw [trim, List.append_assoc, trimStart_append hbefore hfront, trimEnd_append h.back hafter]

/-- Where the blanks at the front of a text end is told by the text. -/
theorem blanks_append_inj {before before' cs cs' : List Char} (hbefore : Blanks before)
    (hbefore' : Blanks before') (h : NotAhead isBlank cs) (h' : NotAhead isBlank cs')
    (heq : before ++ cs = before' ++ cs') : before = before' ∧ cs = cs' := by
  have hsame : before = before' := by
    rw [← h.takeWhile_append hbefore, heq, h'.takeWhile_append hbefore']
  subst hsame
  exact ⟨rfl, List.append_cancel_left heq⟩

theorem exists_trimStart (cs : List Char) : ∃ before, cs = before ++ trimStart cs ∧ Blanks before :=
  ⟨cs.takeWhile isBlank, List.takeWhile_append_dropWhile.symm, blanks_takeWhile cs⟩

theorem exists_trimEnd (cs : List Char) : ∃ after, cs = trimEnd cs ++ after ∧ Blanks after := by
  refine ⟨(cs.reverse.takeWhile isBlank).reverse, ?_, (blanks_takeWhile _).reverse⟩
  rw [trimEnd, ← List.reverse_append, List.takeWhile_append_dropWhile, List.reverse_reverse]

theorem trimStart_eq_nil_iff {cs : List Char} : trimStart cs = [] ↔ Blanks cs := by
  obtain ⟨before, hcs, hbefore⟩ := exists_trimStart cs
  constructor
  · intro h
    rw [hcs, h, List.append_nil]
    exact hbefore
  · intro h
    have hstart : trimStart (cs ++ []) = [] := trimStart_append h fun c hc => by cases hc
    rwa [List.append_nil] at hstart

theorem trim_of_blanks {cs : List Char} (h : Blanks cs) : trim cs = [] := by
  rw [trim, trimStart_eq_nil_iff.2 h]
  rfl

/-- A text is made of blanks, or is a trimmed text between blanks. -/
theorem blanks_or_trimmed (cs : List Char) :
    Blanks cs ∨ ∃ before after, cs = before ++ trim cs ++ after ∧ Blanks before ∧ Trimmed (trim cs) ∧
      Blanks after := by
  obtain ⟨before, hcs, hbefore⟩ := exists_trimStart cs
  obtain ⟨after, hend, hafter⟩ := exists_trimEnd (trimStart cs)
  by_cases hempty : trimStart cs = []
  · exact .inl (trimStart_eq_nil_iff.1 hempty)
  · have hfront : NotAhead isBlank (trimStart cs) := notAhead_dropWhile isBlank cs
    have hback : NotAhead isBlank (trim cs).reverse := by
      rw [trim, trimEnd, List.reverse_reverse]
      exact notAhead_dropWhile _ _
    -- with nothing left the whole would be the blanks at the end, and would not begin as it does
    have hne : trim cs ≠ [] := by
      intro hnil
      rw [← trim, hnil, List.nil_append] at hend
      rw [← hend] at hafter
      exact hempty (hafter.eq_nil hfront)
    refine .inr ⟨before, after, ?_, hbefore, ⟨hne, ?_, hback⟩, hafter⟩
    · rw [List.append_assoc, trim, ← hend]
      exact hcs
    · rw [hend] at hfront
      exact (notAhead_append hne).1 hfront

end Stencil.Text
