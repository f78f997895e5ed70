import SymbolGraph.Number.Binary64

/-!
# `Number.Decimal` — numbers as they are written

A written number is a sign, digits, perhaps a fraction, perhaps an
exponent.  `split` takes the text apart by position; what each part may be
is decided by the reader that uses it.
-/

namespace SymbolGraph.Number

/-- The parts of a written number; `none` where the mark of a part is absent. -/
structure Decimal where
  negative : Bool
  whole : List Char
  fraction : Option (List Char)
  exponent : Option (Bool × List Char)
  deriving Repr, DecidableEq

namespace Decimal

/-- The value of digits read from the left. -/
def value (digits : List Char) : Nat :=
  digits.foldl (fun n c => 10 * n + (c.toNat - 48)) 0

/-- A sign in front, `-` or, where allowed, `+`. -/
def sign (plus : Bool) : List Char → Bool × List Char
  | '-' :: rest => (true, rest)
  | '+' :: rest => if plus then (false, rest) else (false, '+' :: rest)
  | cs => (false, cs)

/-- The exponent part: its sign and digits, if an `e` stands in front and only
digits follow the sign. -/
def exponentOf : List Char → Option (Option (Bool × List Char))
  | [] => some none
  | c :: rest =>
      if c = 'e' ∨ c = 'E' then
        let (negative, digits) := sign true rest
        if digits ≠ [] ∧ digits.all Char.isDigit then some (some (negative, digits)) else none
      else none

/-- Takes a written number apart; `none` if something is left over. -/
def split (plus : Bool) (text : List Char) : Option Decimal :=
  let (negative, rest) := sign plus text
  let whole := rest.takeWhile Char.isDigit
  let (fraction, rest) := match rest.dropWhile Char.isDigit with
    | '.' :: more => (some (more.takeWhile Char.isDigit), more.dropWhile Char.isDigit)
    | other => (none, other)
  (exponentOf rest).map fun exponent => ⟨negative, whole, fraction, exponent⟩

/-- The exponent as a number. -/
def power (d : Decimal) : Int :=
  match d.exponent with
  | none => 0
  | some (negative, digits) => if negative then -(value digits : Int) else value digits

/-- The nearest floating-point value. -/
def toBinary64 (d : Decimal) : Binary64 :=
  let fraction := d.fraction.getD []
  let digits := d.whole ++ fraction
  Binary64.ofDecimal d.negative (value digits) digits.length (d.power - fraction.length)

end Decimal

end SymbolGraph.Number
