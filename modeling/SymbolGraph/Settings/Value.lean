import SymbolGraph.Problem
import SymbolGraph.Number.Decimal
import SymbolGraph.Text.Basic

/-!
# `Settings.Value` — single values of the settings

A value stands in a variable, and is then a text, or in a JSON object.  One
reader per field takes both: a text means the same in either place, and
values of other types are taken where they fit.
-/

namespace SymbolGraph.Settings

open Number (Binary64 Decimal)

/-! ## Truth values -/

/-- The words for a truth value, in any case. -/
def bool? (text : String) : Option Bool :=
  let word := Text.lower text
  if ["0", "off", "f", "false", "n", "no"].contains word then some false
  else if ["1", "on", "t", "true", "y", "yes"].contains word then some true
  else none

/-- One is true and zero is false. -/
def boolOfInt (n : Int) : Except Problem.Kind Bool :=
  if n = 0 then .ok false else if n = 1 then .ok true else .error .boolParsing

/-- A truth value: itself, a word for it, or a number that fits into a word of
64 bits and is zero or one. -/
def readBool : Json → Except Problem.Kind Bool
  | .bool b => .ok b
  | .str s => match bool? s with
      | some b => .ok b
      | none => .error .boolParsing
  | .int n => if -Int.pow 2 63 ≤ n ∧ n < Int.pow 2 63 then boolOfInt n else .error .boolType
  | .float x => match x.whole? with
      | some n => if -Int.pow 2 63 < n ∧ n < Int.pow 2 63 then boolOfInt n else .error .boolType
      | none => .error .boolType
  | _ => .error .boolType

/-! ## Sizes -/

/-- A number with digits somewhere before its exponent, or a word for one that
is not finite. -/
def plainNumber? (text : List Char) : Option Binary64 :=
  let (negative, rest) := Decimal.sign true text
  match Text.lower (String.ofList rest) with
  | "inf" | "infinity" => some (.infinite negative)
  | "nan" => some .nan
  | _ =>
      match Decimal.split true text with
      | some d =>
          if d.whole.isEmpty && (d.fraction.getD []).isEmpty then none else some d.toBinary64
      | none => none

/-- Digits may be set apart by single underscores. -/
def withoutUnderscores? (text : List Char) : Option (List Char) :=
  if text.contains '_' && text.head? != some '_' && text.getLast? != some '_' &&
      !Text.occursIn ['_', '_'] text then
    some (text.filter (· != '_'))
  else none

/-- A number, perhaps with white space around it. -/
def number? (text : String) : Option Binary64 :=
  (plainNumber? (Text.trim Text.isWhiteSpace text).toList).or
    ((withoutUnderscores? text.toList).bind plainNumber?)

/-- The least size that may be set: a tenth. -/
def leastSize : Binary64 := Binary64.ofDecimal false 1 1 (-1)

/-- A size that may be set. -/
def boundedSize (x : Binary64) : Except Problem.Kind Binary64 :=
  if x = .nan ∨ x.less leastSize then .error .greaterThanEqual else .ok x

/-- A size: a number, or a text that is one.  An integer has to lie in the range
of floating-point values. -/
def readSize : Json → Except Problem.Kind Binary64
  | .str s => match number? s with
      | some x => boundedSize x
      | none => .error .floatParsing
  | .int n => match Binary64.ofInt n with
      | .infinite _ => .error .floatType
      | x => boundedSize x
  | .float x => boundedSize x
  | _ => .error .floatType

/-! ## Texts -/

/-- The parts of a text between commas, without blanks around them and without
the empty ones. -/
def commaParts (text : String) : List String :=
  ((text.splitOn ",").map (Text.trim Text.isBlank)).filter (· ≠ "")

def readString : Json → Except Problem.Kind String
  | .str s => .ok s
  | _ => .error .stringType

end SymbolGraph.Settings
