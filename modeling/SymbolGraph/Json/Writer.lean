import SymbolGraph.Json.Basic
import SymbolGraph.Text.Quoted

/-!
# `Json.Writer` — JSON text of a value

The text is ASCII: every other character is written by its number, or by
the two numbers of its pair.  Laid out in lines, each item has a line of its
own, indented once for each container around it; on one line, a blank
follows each comma.
-/

namespace SymbolGraph.Json

open Text.Quoted (hex)

/-- A unit of sixteen bits by its number. -/
def unitText (n : Nat) : List Char := '\\' :: 'u' :: hex 4 n

/-- A character inside a string. -/
def charText (c : Char) : List Char :=
  if c = '"' then ['\\', '"']
  else if c = '\\' then ['\\', '\\']
  else if c = '\n' then ['\\', 'n']
  else if c = '\r' then ['\\', 'r']
  else if c = '\t' then ['\\', 't']
  else if c = '\x0c' then ['\\', 'f']
  else if c = '\x08' then ['\\', 'b']
  else if 0x20 ≤ c.toNat ∧ c.toNat < 0x7F then [c]
  else if c.toNat < 0x10000 then unitText c.toNat
  else
    let n := c.toNat - 0x10000
    unitText (0xD800 + n / 0x400) ++ unitText (0xDC00 + n % 0x400)

/-- A string between its quotation marks. -/
def stringText (s : String) : String :=
  String.ofList ('"' :: (s.toList.flatMap charText ++ ['"']))

/-- On one line, or in lines with so many blanks for each level. -/
abbrev Layout := Option Nat

/-- A line end and the indentation of a level; nothing on one line. -/
def lineEnd (layout : Layout) (level : Nat) : String :=
  match layout with
  | none => ""
  | some width => "\n" ++ String.ofList (List.replicate (width * level) ' ')

/-- What stands between two items. -/
def separator (layout : Layout) (level : Nat) : String :=
  match layout with
  | none => ", "
  | some _ => "," ++ lineEnd layout level

mutual

/-- Writes a value, inside `level` containers, at the end of a text. -/
def writeOnto (layout : Layout) (level : Nat) : Json → String → String
  | .null, out => out ++ "null"
  | .bool b, out => out ++ (if b then "true" else "false")
  | .int n, out => out ++ toString n
  | .float x, out => out ++ x.text
  | .str s, out => out ++ stringText s
  | .arr [], out => out ++ "[]"
  | .arr (x :: items), out =>
      writeItems layout (level + 1) items
        (writeOnto layout (level + 1) x (out ++ "[" ++ lineEnd layout (level + 1)))
        ++ lineEnd layout level ++ "]"
  | .obj [], out => out ++ "\x7b\x7d"
  | .obj ((name, x) :: members), out =>
      writeMembers layout (level + 1) members
        (writeOnto layout (level + 1) x
          (out ++ "\x7b" ++ lineEnd layout (level + 1) ++ stringText name ++ ": "))
        ++ lineEnd layout level ++ "\x7d"

/-- The items after the first. -/
def writeItems (layout : Layout) (level : Nat) : List Json → String → String
  | [], out => out
  | x :: items, out =>
      writeItems layout level items (writeOnto layout level x (out ++ separator layout level))

/-- The members after the first. -/
def writeMembers (layout : Layout) (level : Nat) : List (String × Json) → String → String
  | [], out => out
  | (name, x) :: members, out =>
      writeMembers layout level members
        (writeOnto layout level x (out ++ separator layout level ++ stringText name ++ ": "))

end

/-- The text of a value. -/
def render (layout : Layout) (value : Json) : String := writeOnto layout 0 value ""

end SymbolGraph.Json
