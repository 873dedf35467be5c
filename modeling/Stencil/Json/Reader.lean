import Stencil.Json.Basic
import Stencil.Decimal.Nearest
import Stencil.Text.Slice
/-
  Reading structured data.

  The grammar is the usual one.  Three rules are worth a word.  A number with neither point nor
  exponent is whole when it fits 64 bits, with a sign or without one; minus zero is a fraction.  A
  fraction is read as the digits that fit a word of 64 bits, made a floating-point number and then
  scaled by one power of ten, and it must not be too large.  Values nest at most 127 deep.

  A document whose members are known beforehand can be read with `fields?`, which asks of the other
  members only that they are well formed: their numbers may be too large, their texts may hold half of
  a pair of code units, and they may nest to any depth.
-/

namespace Stencil.Json.Reader

/-- Blanks between the parts of a document. -/
def skipBlanks (cs : List Char) : List Char :=
  cs.dropWhile fun c => c == ' ' || c == '\n' || c == '\t' || c == '\r'

/-- The value of a digit to the base sixteen. -/
def hexValue? (c : Char) : Option Nat :=
  if c.isDigit then some (c.toNat - '0'.toNat)
  else if 'a' ≤ c && c ≤ 'f' then some (c.toNat - 'a'.toNat + 10)
  else if 'A' ≤ c && c ≤ 'F' then some (c.toNat - 'A'.toNat + 10)
  else none

/-- Four digits to the base sixteen. -/
def codeUnit? : List Char → Option (Nat × List Char)
  | a :: b :: c :: d :: rest => do
    let a ← hexValue? a
    let b ← hexValue? b
    let c ← hexValue? c
    let d ← hexValue? d
    some (((a * 16 + b) * 16 + c) * 16 + d, rest)
  | _ => none

/-- The characters that one letter after a backslash stands for. -/
def letterEscapes : List (Char × Char) :=
  [('"', '"'), ('\\', '\\'), ('/', '/'), ('b', '\x08'), ('f', '\x0c'), ('n', '\n'), ('r', '\r'),
   ('t', '\t')]

/-- A character written by its code units, after `\u`.  Two halves of a pair make one character; a
    half alone is accepted only where the text is thrown away. -/
def unicodeEscape? (strict : Bool) (cs : List Char) : Option (Char × List Char) := do
  let (first, rest) ← codeUnit? cs
  if !strict then some ('?', rest)
  else if 0xDC00 ≤ first && first ≤ 0xDFFF then none
  else if 0xD800 ≤ first && first ≤ 0xDBFF then
    match rest with
    | '\\' :: 'u' :: rest => do
      let (second, rest) ← codeUnit? rest
      if 0xDC00 ≤ second && second ≤ 0xDFFF then
        some (Char.ofNat (0x10000 + (first - 0xD800) * 0x400 + (second - 0xDC00)), rest)
      else none
    | _ => none
  else some (Char.ofNat first, rest)

/-- The rest of a quoted text after its opening quote.  The fuel is at least the length of the text. -/
def textBody? (strict : Bool) : Nat → List Char → Option (List Char × List Char)
  | 0, _ => none
  | fuel + 1, cs =>
    match cs with
    | [] => none
    | '"' :: rest => some ([], rest)
    | '\\' :: 'u' :: rest => do
      let (c, rest) ← unicodeEscape? strict rest
      let (more, rest) ← textBody? strict fuel rest
      some (c :: more, rest)
    | '\\' :: letter :: rest => do
      let c ← letterEscapes.lookup letter
      let (more, rest) ← textBody? strict fuel rest
      some (c :: more, rest)
    | c :: rest =>
      if c == '\\' || c.toNat < 0x20 then none
      else do
        let (more, rest) ← textBody? strict fuel rest
        some (c :: more, rest)

/-- A quoted text after its opening quote. -/
def text? (strict : Bool) (cs : List Char) : Option (String × List Char) := do
  let (body, rest) ← textBody? strict (cs.length + 1) cs
  some (String.ofList body, rest)

/-- Add digits to a significand as long as it fits a word of 64 bits; the number of digits left. -/
def significand (start : Nat) : List Char → Nat × Nat
  | [] => (start, 0)
  | d :: ds =>
    let next := start * 10 + Decimal.digitValue d
    if next < UInt64.size then significand next ds else (start, ds.length + 1)

/-- The floating-point number nearest to a power of ten. -/
def powerOfTen (k : Nat) : Float := (Decimal.Scientific.mk false 1 k).nearest

/-- Divide by a power of ten, in steps where the power is beyond the largest number. -/
def scaleDown (x : Float) (k : Nat) : Float :=
  if k < 309 then x / powerOfTen k
  else if Binary64.isZero x then x
  else scaleDown (x / powerOfTen 308) (k - 308)
termination_by k

/-- A significand scaled by a power of ten; there is no answer when the result is too large. -/
def scale? (negative : Bool) (digits : Nat) (exponent : Int) : Option Float :=
  let x := Binary64.ofInt digits
  let sign (x : Float) : Float := if negative then -x else x
  if exponent < 0 then some (sign (scaleDown x (-exponent).toNat))
  else if exponent ≥ 309 then if digits = 0 then some (sign x) else none
  else
    let x := x * powerOfTen exponent.toNat
    if Binary64.isFinite x then some (sign x) else none

/-- The parts of a number: its sign, the digits before the point, the digits after it, and the
    exponent, each with what was written. -/
structure Parts where
  negative : Bool
  whole : List Char
  fraction : Option (List Char)
  exponent : Option (Bool × List Char)

/-- The parts of a number at the front of a text. -/
def parts? (cs : List Char) : Option (Parts × List Char) := do
  let (negative, cs) :=
    match cs with
    | '-' :: rest => (true, rest)
    | rest => (false, rest)
  let whole := cs.takeWhile Char.isDigit
  let rest := cs.dropWhile Char.isDigit
  if whole.isEmpty || (whole.length > 1 && whole.head? == some '0') then none
  else
    let (fraction, rest) ←
      match rest with
      | '.' :: rest =>
        let digits := rest.takeWhile Char.isDigit
        if digits.isEmpty then none else some (some digits, rest.dropWhile Char.isDigit)
      | rest => some (none, rest)
    let exponentOf (rest : List Char) : Option (Option (Bool × List Char) × List Char) :=
      let (negative, rest) := Decimal.splitSign rest
      let digits := rest.takeWhile Char.isDigit
      if digits.isEmpty then none else some (some (negative, digits), rest.dropWhile Char.isDigit)
    let (exponent, rest) ←
      match rest with
      | 'e' :: rest => exponentOf rest
      | 'E' :: rest => exponentOf rest
      | rest => some (none, rest)
    some (⟨negative, whole, fraction, exponent⟩, rest)

/-- The value of a number. -/
def Parts.value? (p : Parts) : Option Json :=
  let (digits, dropped) := significand 0 p.whole
  match p.fraction, p.exponent with
  | none, none =>
    if dropped > 0 then (scale? p.negative digits dropped).map .float
    else if !p.negative then some (.int digits)
    else if digits = 0 || digits > Nat.pow 2 63 then some (.float (-(Binary64.ofInt digits)))
    else some (.int (-(digits : Int)))
  | fraction, exponent =>
    let places := fraction.getD []
    let (digits, left) := significand digits places
    let power : Int := dropped - ((places.length - left : Nat) : Int)
    match exponent with
    | none => (scale? p.negative digits power).map .float
    | some (negative, written) =>
      let size := Decimal.digitsValue written
      if size ≥ Nat.pow 2 31 then
        if digits = 0 || negative then some (.float (if p.negative then -0.0 else 0.0)) else none
      else (scale? p.negative digits (if negative then power - size else power + size)).map .float

/-- A word of the language at the front of a text. -/
def word? (word : String) (value : Json) (cs : List Char) : Option (Json × List Char) :=
  (Text.afterMark word.toList cs).map fun rest => (value, rest)

mutual

/-- The value at the front of a text.  Where `strict` does not hold the value is thrown away, and it
    is enough that it is well formed. -/
def value? (strict : Bool) : (fuel depth : Nat) → List Char → Option (Json × List Char)
  | 0, _, _ => none
  | fuel + 1, depth, cs =>
    match skipBlanks cs with
    | '"' :: rest => (text? strict rest).map fun (s, rest) => (.text s, rest)
    | '[' :: rest =>
      match depth, skipBlanks rest with
      | 0, _ => none
      | _ + 1, ']' :: rest => some (.array [], rest)
      | depth + 1, rest => (items? strict fuel depth rest).map fun (xs, rest) => (.array xs, rest)
    | '\x7b' :: rest =>
      match depth, skipBlanks rest with
      | 0, _ => none
      | _ + 1, '\x7d' :: rest => some (.object [], rest)
      | depth + 1, rest =>
        (members? strict fuel depth rest).map fun (ms, rest) => (.object ms, rest)
    | 'n' :: rest => word? "ull" .null rest
    | 't' :: rest => word? "rue" (.bool true) rest
    | 'f' :: rest => word? "alse" (.bool false) rest
    | rest => do
      let (parts, rest) ← parts? rest
      if strict then (parts.value?).map fun v => (v, rest) else some (.null, rest)

/-- Items up to the bracket that closes their array. -/
def items? (strict : Bool) : (fuel depth : Nat) → List Char → Option (List Json × List Char)
  | 0, _, _ => none
  | fuel + 1, depth, cs => do
    let (item, rest) ← value? strict fuel depth cs
    match skipBlanks rest with
    | ',' :: rest =>
      let (more, rest) ← items? strict fuel depth rest
      some (item :: more, rest)
    | ']' :: rest => some ([item], rest)
    | _ => none

/-- Members up to the brace that closes their object. -/
def members? (strict : Bool) : (fuel depth : Nat) → List Char → Option (List (String × Json) × List Char)
  | 0, _, _ => none
  | fuel + 1, depth, cs =>
    match skipBlanks cs with
    | '"' :: rest => do
      let (name, rest) ← text? strict rest
      match skipBlanks rest with
      | ':' :: rest =>
        let (value, rest) ← value? strict fuel depth rest
        match skipBlanks rest with
        | ',' :: rest =>
          let (more, rest) ← members? strict fuel depth rest
          some ((name, value) :: more, rest)
        | '\x7d' :: rest => some ([(name, value)], rest)
        | _ => none
      | _ => none
    | _ => none

end

/-- How deep values may nest in a document. -/
def maxDepth : Nat := 127

/-- Enough fuel for a text: every step of the grammar reads a character or goes one rule down. -/
def fuelFor (cs : List Char) : Nat := 3 * cs.length + 3

/-- Whether only blanks are left. -/
def atEnd (cs : List Char) : Bool := (skipBlanks cs).isEmpty

/-- Members up to the brace that closes their object, each read strictly when its name is wanted. -/
def wantedMembers? (names : List String) : (fuel : Nat) → List Char → Option (List (String × Json) × List Char)
  | 0, _ => none
  | fuel + 1, cs =>
    match skipBlanks cs with
    | '"' :: rest => do
      let (name, rest) ← text? true rest
      let strict := names.contains name
      match skipBlanks rest with
      | ':' :: rest =>
        let depth := if strict then maxDepth - 1 else rest.length
        let (value, rest) ← value? strict (fuelFor rest) depth rest
        match skipBlanks rest with
        | ',' :: rest =>
          let (more, rest) ← wantedMembers? names fuel rest
          some ((name, value) :: more, rest)
        | '\x7d' :: rest => some ([(name, value)], rest)
        | _ => none
      | _ => none
    | _ => none

end Stencil.Json.Reader

namespace Stencil.Json

open Reader

/-- The value that a document holds. -/
def read? (text : String) : Option Json := do
  let cs := text.toList
  let (value, rest) ← value? true (fuelFor cs) maxDepth cs
  if atEnd rest then some value else none

/-- The fields of a document: an object with some of them as members, in any order and each at most once,
    or an array with their values in the order of the names, which may stop early. -/
def fields? (names : List String) (text : String) : Option (List (String × Json)) := do
  let cs := text.toList
  match skipBlanks cs with
  | '\x7b' :: rest =>
    let (members, rest) ←
      match skipBlanks rest with
      | '\x7d' :: rest => some ([], rest)
      | rest => wantedMembers? names (rest.length + 1) rest
    let wanted := members.filter fun member => names.contains member.1
    if atEnd rest && (wanted.map Prod.fst).eraseDups.length == wanted.length then some wanted
    else none
  | '[' :: _ =>
    let (value, rest) ← value? true (fuelFor cs) maxDepth cs
    let items ← value.items?
    if atEnd rest && items.length ≤ names.length then some (names.zip items) else none
  | _ => none

end Stencil.Json
