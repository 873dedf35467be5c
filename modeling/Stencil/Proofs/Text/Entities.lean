import Stencil.Html
import Stencil.Text.Slice
/-
  Escaped text read back.

  A page is read by replacing entities, from left to right, by the characters they stand for.  The reader is
  defined here from a table of the entities, apart from the rules by which text is escaped.

  The main statement is that the reader undoes escaping, also for text that looks like an entity already.
  It holds because an ampersand is never left as it is: in an escaped text every ampersand begins an
  entity, so that the reader cannot begin in the middle of one and cannot take plain text for one.
-/

namespace Stencil.Html

open Text (afterMark)

/-! ## Reading entities -/

/-- The entities, each with the character it stands for. -/
def entities : List (List Char × Char) :=
  [("&amp;".toList, '&'), ("&lt;".toList, '<'), ("&gt;".toList, '>'), ("&quot;".toList, '"'),
   ("&#039;".toList, '\'')]

/-- The character that the entity at the front of a text stands for, and the text behind the entity. -/
def readEntity? (cs : List Char) : Option (Char × List Char) :=
  entities.findSome? fun (entity, c) => (afterMark entity cs).map fun rest => (c, rest)

theorem readEntity?_eq_some {cs rest : List Char} {c : Char} (h : readEntity? cs = some (c, rest)) :
    ∃ entity, (entity, c) ∈ entities ∧ cs = entity ++ rest := by
  obtain ⟨⟨entity, d⟩, hmem, hread⟩ := List.exists_of_findSome?_eq_some h
  obtain ⟨rest', hrest, heq⟩ := Option.map_eq_some_iff.1 hread
  obtain ⟨rfl, rfl⟩ := Prod.mk.inj heq
  exact ⟨entity, hmem, Text.afterMark_eq_some_iff.1 hrest⟩

/-- An entity begins with an ampersand and has no other one, nor one of the other escaped characters. -/
theorem exists_of_mem_entities {entity : List Char} {c : Char} (h : (entity, c) ∈ entities) :
    ∃ body, entity = '&' :: body ∧ '&' ∉ body ∧ ∀ d ∈ body, d ∉ ['<', '>', '"', '\''] := by
  have hall : ∀ entry ∈ entities, entry.1 = '&' :: entry.1.tail ∧ '&' ∉ entry.1.tail ∧
      ∀ d ∈ entry.1.tail, d ∉ ['<', '>', '"', '\''] := by
    simp [entities]
  exact ⟨entity.tail, hall _ h⟩

theorem length_lt_of_readEntity? {cs rest : List Char} {c : Char} (h : readEntity? cs = some (c, rest)) :
    rest.length < cs.length := by
  obtain ⟨entity, hmem, rfl⟩ := readEntity?_eq_some h
  obtain ⟨body, rfl, -⟩ := exists_of_mem_entities hmem
  simp only [List.cons_append, List.length_cons, List.length_append]
  omega

/-- A text with the entities in it, from left to right, replaced by the characters they stand for. -/
def replaceEntities (cs : List Char) : List Char :=
  match cs with
  | [] => []
  | c :: cs =>
    match h : readEntity? (c :: cs) with
    | some (d, rest) =>
      have : rest.length < (c :: cs).length := length_lt_of_readEntity? h
      d :: replaceEntities rest
    | none => c :: replaceEntities cs
termination_by cs.length
decreasing_by
  · assumption
  · exact Nat.lt_succ_self _

/-- The text that stands on a page with entities in it. -/
def unescape (s : String) : String := String.ofList (replaceEntities s.toList)

/-- No entity is the front of another one: the reader takes the one that is written. -/
theorem readEntity?_append {entity : List Char} {c : Char} (h : (entity, c) ∈ entities) (rest : List Char) :
    readEntity? (entity ++ rest) = some (c, rest) := by
  have hall : ∀ entry ∈ entities, readEntity? (entry.1 ++ rest) = some (entry.2, rest) := by
    simp only [entities, List.forall_mem_cons]
    exact ⟨rfl, rfl, rfl, rfl, rfl, List.forall_mem_nil _⟩
  exact hall _ h

theorem readEntity?_cons_of_ne {c : Char} (h : c ≠ '&') (cs : List Char) : readEntity? (c :: cs) = none := by
  cases hread : readEntity? (c :: cs) with
  | none => rfl
  | some read =>
    obtain ⟨entity, hmem, heq⟩ := readEntity?_eq_some hread
    obtain ⟨body, rfl, -⟩ := exists_of_mem_entities hmem
    exact absurd (List.cons.inj heq).1 h

theorem replaceEntities_append {entity : List Char} {c : Char} (h : (entity, c) ∈ entities)
    (rest : List Char) : replaceEntities (entity ++ rest) = c :: replaceEntities rest := by
  have hread := readEntity?_append h rest
  obtain ⟨body, rfl, -⟩ := exists_of_mem_entities h
  rw [List.cons_append] at hread ⊢
  rw [replaceEntities]
  split
  · next heq =>
    obtain ⟨rfl, rfl⟩ := Prod.mk.inj (Option.some.inj (hread.symm.trans heq))
    rfl
  · next heq => cases hread.symm.trans heq

theorem replaceEntities_cons_of_ne {c : Char} (h : c ≠ '&') (cs : List Char) :
    replaceEntities (c :: cs) = c :: replaceEntities cs := by
  have hread := readEntity?_cons_of_ne h cs
  rw [replaceEntities]
  split
  · next heq => cases hread.symm.trans heq
  · rfl

/-! ## Escaped text -/

/-- A character is written as its entity if it has one, and otherwise as it is. -/
theorem escapeChar_cases (c : Char) :
    (escapeChar c, c) ∈ entities ∨ escapeChar c = [c] ∧ c ∉ ['&', '<', '>', '"', '\''] := by
  unfold escapeChar
  split
  case h_6 hamp hlt hgt hquot happ =>
    right
    refine ⟨rfl, ?_⟩
    simp only [List.mem_cons, List.not_mem_nil, or_false, not_or]
    exact ⟨hamp, hlt, hgt, hquot, happ⟩
  all_goals
    left
    decide

theorem escapeChar_plain (c : Char) : ∀ d ∈ escapeChar c, d ∉ ['<', '>', '"', '\''] := by
  intro d hd
  rcases escapeChar_cases c with hentity | ⟨hself, hplain⟩
  · obtain ⟨body, hbody, -, hplain⟩ := exists_of_mem_entities hentity
    rw [hbody] at hd
    rcases List.mem_cons.1 hd with rfl | hd
    · decide
    · exact hplain d hd
  · rw [hself] at hd
    obtain rfl := List.mem_singleton.1 hd
    intro hmem
    exact hplain (List.mem_cons_of_mem _ hmem)

/-- The reader takes what one character is written as for that character, whatever follows. -/
theorem replaceEntities_escapeChar (c : Char) (rest : List Char) :
    replaceEntities (escapeChar c ++ rest) = c :: replaceEntities rest := by
  rcases escapeChar_cases c with hentity | ⟨hself, hplain⟩
  · exact replaceEntities_append hentity rest
  · have hne : c ≠ '&' := by
      rintro rfl
      exact hplain List.mem_cons_self
    rw [hself]
    exact replaceEntities_cons_of_ne hne rest

theorem replaceEntities_flatMap (cs : List Char) : replaceEntities (cs.flatMap escapeChar) = cs := by
  induction cs with
  | nil => rw [List.flatMap_nil, replaceEntities]
  | cons c cs ih => rw [List.flatMap_cons, replaceEntities_escapeChar, ih]

/-- In an escaped text every ampersand begins an entity. -/
theorem entity_at_ampersand {cs before rest : List Char}
    (h : cs.flatMap escapeChar = before ++ '&' :: rest) :
    ∃ entry ∈ entities, entry.1 <+: '&' :: rest := by
  induction cs generalizing before with
  | nil => exact absurd h.symm (by simp)
  | cons c cs ih =>
    rw [List.flatMap_cons] at h
    rcases List.append_eq_append_iff.1 h with ⟨before', rfl, hrest⟩ | ⟨written, hwritten, hrest⟩
    · -- the ampersand stands behind what this character is written as
      exact ih hrest
    · cases written with
      | nil =>
        have hbehind : cs.flatMap escapeChar = [] ++ '&' :: rest := hrest.symm
        exact ih hbehind
      | cons d written =>
        -- the ampersand is part of it, so it is an entity, and the ampersand is its first character
        obtain ⟨rfl, rfl⟩ := List.cons.inj hrest
        rcases escapeChar_cases c with hentity | ⟨hself, hplain⟩
        · obtain ⟨body, hbody, hother, -⟩ := exists_of_mem_entities hentity
          rw [hbody] at hwritten
          cases before with
          | nil =>
            refine ⟨_, hentity, ?_⟩
            rw [hbody, hwritten]
            exact List.prefix_append _ _
          | cons b before =>
            obtain ⟨-, rfl⟩ := List.cons.inj hwritten
            exact absurd (List.mem_append_right _ List.mem_cons_self) hother
        · rw [hself] at hwritten
          have hmem : '&' ∈ [c] := by
            rw [hwritten]
            exact List.mem_append_right _ List.mem_cons_self
          obtain rfl := List.mem_singleton.1 hmem
          exact absurd List.mem_cons_self hplain

theorem unescape_escape (s : String) : unescape (escape s) = s := by
  rw [unescape, escape, String.toList_ofList, replaceEntities_flatMap, String.ofList_toList]

theorem escape_append (s t : String) : escape (s ++ t) = escape s ++ escape t := by
  rw [escape, escape, escape, String.toList_append, List.flatMap_append, String.ofList_append]

/-- An escaped text has none of the characters that could end a text or an attribute, and no ampersand but
    those that begin entities.  Its entities read back give the text, so that different texts are
    escaped differently; and text is escaped piece by piece. -/
theorem entities_read_back (s : String) :
    (∀ c ∈ (escape s).toList, c ∉ ['<', '>', '"', '\'']) ∧
    (∀ before rest, (escape s).toList = before ++ '&' :: rest →
      ∃ entry ∈ entities, entry.1 <+: '&' :: rest) ∧
    unescape (escape s) = s ∧
    (∀ t, escape s = escape t → s = t) ∧
    ∀ t, escape (s ++ t) = escape s ++ escape t := by
  have hchars : (escape s).toList = s.toList.flatMap escapeChar := String.toList_ofList
  refine ⟨?plain, ?ampersands, unescape_escape s, ?injective, escape_append s⟩
  case plain =>
    intro c hc
    rw [hchars] at hc
    obtain ⟨d, -, hd⟩ := List.mem_flatMap.1 hc
    exact escapeChar_plain d c hd
  case ampersands =>
    intro before rest h
    exact entity_at_ampersand (hchars.symm.trans h)
  case injective =>
    intro t h
    calc s = unescape (escape s) := (unescape_escape s).symm
      _ = unescape (escape t) := by rw [h]
      _ = t := unescape_escape t

/-- Text that looks like an entity already. -/
theorem entities_read_back_entity :
    '&' ∈ (escape "&lt;").toList ∧ '&' ∉ ['<', '>', '"', '\''] ∧
    (escape "&lt;").toList = [] ++ '&' :: "amp;lt;".toList ∧
    (∃ entry ∈ entities, entry.1 <+: '&' :: "amp;lt;".toList) ∧
    escape "&lt;" ≠ escape "<" := by
  obtain ⟨hplain, hentity, -, hinjective, -⟩ := entities_read_back "&lt;"
  have hmem : '&' ∈ (escape "&lt;").toList := by decide
  have hsplit : (escape "&lt;").toList = [] ++ '&' :: "amp;lt;".toList := by decide
  refine ⟨hmem, hplain _ hmem, hsplit, hentity _ _ hsplit, ?_⟩
  intro h
  exact absurd (hinjective _ h) (by decide)

end Stencil.Html
