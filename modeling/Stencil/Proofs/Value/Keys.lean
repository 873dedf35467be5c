import Mathlib
import Stencil.Value.Display
import Stencil.Proofs.Value.Proper
/-
  The keys of lists and maps.

  An item has several keys.  A loop hands it out with one of them; an expression may name it by a whole
  number, by the text of that number, or, in a map, as a property.  The main statement is that they all lead to
  the same item: every pair of a loop is found again under its key, and a number and its text are one
  key.

  For lists it rests on numbers being read back as they were written.  A text with a minus sign
  names no place, as a negative number does.
-/

namespace Stencil

/-! ## Numbers read back -/

namespace Decimal

theorem natural?_natDigits (n : Nat) : natural? (natDigits n) = some n := by
  have hdigits : (natDigits n).all Char.isDigit = true :=
    List.all_eq_true.2 fun c hc => Nat.isDigit_of_mem_toDigits (by decide) (by decide) hc
  have hempty : (natDigits n).isEmpty = false := List.isEmpty_eq_false_iff.2 Nat.toDigits_ne_nil
  rw [natural?, hempty, hdigits]
  exact congrArg some (Nat.ofDigitChars_toDigits (by decide) (by decide))

/-- A digit is no sign. -/
theorem natDigits_ne_cons (n : Nat) {sign : Char} (hsign : sign.isDigit = false) (rest : List Char) :
    natDigits n ≠ sign :: rest := by
  intro heq
  have hmem : sign ∈ natDigits n := by
    rw [heq]
    exact List.mem_cons_self
  have hdigit := Nat.isDigit_of_mem_toDigits (by decide) (by decide) hmem
  rw [hsign] at hdigit
  cases hdigit

theorem intText_eq_toString (n : Int) : intText n = toString n := by
  cases n with
  | ofNat n => exact Nat.repr_eq_ofList_toDigits.symm
  | negSucc n =>
    rw [Int.toString_eq_repr]
    show String.ofList (['-'] ++ natDigits (n + 1)) = "-" ++ (n + 1).repr
    rw [String.ofList_append, Nat.repr_eq_ofList_toDigits]
    rfl

end Decimal

namespace Value

/-- The text of a place names it. -/
theorem place?_natText {n : Nat} (hn : n < UInt64.size) : place? (Decimal.natText n) = some n := by
  have hread : place? (Decimal.natText n)
      = (Decimal.natural? (Decimal.natDigits n)).filter (· < UInt64.size) := by
    rw [place?, Decimal.natText, String.toList_ofList]
    split
    · next rest heq => exact absurd heq (Decimal.natDigits_ne_cons n rfl rest)
    · rfl
  rw [hread, Decimal.natural?_natDigits, Option.filter_some]
  exact if_pos (decide_eq_true hn)

/-- A text with a minus sign names no place. -/
theorem place?_minus (cs : List Char) : place? (String.ofList ('-' :: cs)) = none := by
  rw [place?, String.toList_ofList]
  show (Decimal.natural? ('-' :: cs)).filter (· < UInt64.size) = none
  rw [Decimal.natural?]
  rfl

/-! ## One item under several keys -/

/-- A number and its text are one key of a list. -/
theorem index_list_intText (items : List Value) (i : Int64) :
    (list items).index (.int i) = (list items).index (.text (Decimal.intText i.toInt)) := by
  have hlt := i.toInt_lt
  rw [index, index]
  cases hi : i.toInt with
  | ofNat n =>
    rw [hi] at hlt
    have hn : n < UInt64.size := by
      have hsize : UInt64.size = 18446744073709551616 := rfl
      have hof : Int.ofNat n = (n : Int) := rfl
      omega
    have hplace : place? (Decimal.intText (.ofNat n)) = some n := place?_natText hn
    rw [hplace]
    rfl
  | negSucc n =>
    have hplace : place? (Decimal.intText (.negSucc n)) = none := place?_minus _
    rw [hplace]
    exact if_pos (Int.negSucc_lt_zero n)

theorem index_list_ofNat {items : List Value} {i : Nat} (hi : i < 2 ^ 63) :
    (list items).index (ofNat i) = (items[i]?).getD .null := by
  have hword : (Int64.ofNat i).toInt = i := Int64.toInt_ofNat_of_lt hi
  show itemAt items (Int64.ofNat i).toInt = _
  rw [hword, itemAt, if_neg (by omega), Int.toNat_natCast]

/-- The keys of a value tell its items apart: a map has no key twice, and the places of a list are numbers
    that fit a word. -/
def WellKeyed : Value → Prop
  | .list items => items.length < 2 ^ 63
  | .map entries => Ordered.Distinct entries
  | _ => True

/-- A list of pairs goes through a value: it has all items of a list with their places, or all entries
    of a map, each at its place and nothing else. -/
def GoesThrough (pairs : List (Value × Value)) : Value → Prop
  | .null => pairs = []
  | .list items => pairs.length = items.length ∧
      ∀ (i : Nat) item, items[i]? = some item →
        ∃ key : Int64, key.toInt = i ∧ pairs[i]? = some (.int key, item)
  | .map entries => pairs.length = entries.length ∧
      ∀ (i : Nat) name item, entries[i]? = some (name, item) → pairs[i]? = some (.text name, item)
  | _ => False

theorem goesThrough_entries? {v : Value} {pairs : List (Value × Value)} (hv : v.WellKeyed)
    (h : v.entries? = some pairs) : GoesThrough pairs v := by
  cases v with
  | null => exact (Option.some.inj h).symm
  | list items =>
    obtain rfl := Option.some.inj h
    refine ⟨by simp, fun i item hitem => ?_⟩
    obtain ⟨hi, -⟩ := List.getElem?_eq_some_iff.1 hitem
    refine ⟨Int64.ofNat i, Int64.toInt_ofNat_of_lt (Nat.lt_trans hi hv), ?_⟩
    simp [List.getElem?_zipIdx, hitem, ofNat]
  | map entries =>
    obtain rfl := Option.some.inj h
    exact ⟨List.length_map _, fun i name item hentry => by simp [hentry]⟩
  | bool | int | float | text | html => cases h

/-- A pair of a loop is found again under its key. -/
theorem index_of_mem_entries? {v : Value} {pairs : List (Value × Value)} (hv : v.WellKeyed)
    (h : v.entries? = some pairs) {key item : Value} (hmem : (key, item) ∈ pairs) :
    v.index key = item := by
  cases v with
  | null => cases Option.some.inj h; cases hmem
  | list items =>
    obtain rfl := Option.some.inj h
    obtain ⟨⟨item', i⟩, hpair, heq⟩ := List.mem_map.1 hmem
    obtain ⟨rfl, rfl⟩ := Prod.mk.inj heq
    have hitem : items[i]? = some item' := List.mem_zipIdx_iff_getElem?.1 hpair
    obtain ⟨hi, -⟩ := List.getElem?_eq_some_iff.1 hitem
    rw [index_list_ofNat (Nat.lt_trans hi hv), hitem]
    rfl
  | map entries =>
    obtain rfl := Option.some.inj h
    obtain ⟨⟨name, item'⟩, hentry, heq⟩ := List.mem_map.1 hmem
    obtain ⟨rfl, rfl⟩ := Prod.mk.inj heq
    show (Ordered.get? entries name).getD .null = item'
    rw [Ordered.get?_of_mem hv hentry]
    rfl
  | bool | int | float | text | html => cases h

/-- All keys of an item lead to it: the key a loop hands out, a whole number and its text, and the name
    of a property. -/
theorem keys_index_back (v : Value) :
    (v.WellKeyed → ∀ pairs, v.entries? = some pairs →
      GoesThrough pairs v ∧ ∀ pair ∈ pairs, v.index pair.1 = pair.2) ∧
    (v.kind = .array → ∀ i : Int64, v.index (.int i) = v.index (.text (toString i.toInt))) ∧
    (∀ entries, v = .map entries → ∀ name, v.property name = v.index (.text name)) := by
  refine ⟨fun hv pairs h => ⟨goesThrough_entries? hv h, fun pair hmem => ?_⟩, fun hkind i => ?_, ?_⟩
  · exact index_of_mem_entries? hv h hmem
  · rw [← Decimal.intText_eq_toString]
    cases v with
    | list items => exact index_list_intText items i
    | map entries => rfl
    | null | bool | int | float | text | html => cases hkind
  · rintro entries rfl name
    rfl

/-- A map of two numbers, as a loop goes through it. -/
theorem keys_index_back_pair :
    let v : Value := .map [("-1", .bool true), ("0", .null)]
    v.WellKeyed ∧ v.kind = .array ∧
      (∀ pair ∈ [(Value.text "-1", Value.bool true), (.text "0", .null)], v.index pair.1 = pair.2) ∧
      v.index (.int (-1)) = v.index (.text "-1") := by
  have hkeys : Ordered.Distinct [("-1", Value.bool true), ("0", .null)] := by decide
  obtain ⟨hpairs, hnumbers, -⟩ := keys_index_back (.map [("-1", .bool true), ("0", .null)])
  exact ⟨hkeys, rfl, (hpairs hkeys _ rfl).2, hnumbers rfl (-1)⟩

end Value

end Stencil
