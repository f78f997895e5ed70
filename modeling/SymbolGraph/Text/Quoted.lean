import SymbolGraph.Text.Classes
import SymbolGraph.Text.Utf8

/-!
# `Text.Quoted` — a text between quotes, as messages show it

Single quotes, unless the text holds a single quote and no double one.  A
backslash and the quote in use are written with a backslash before them,
and a character that cannot be shown by its number.
-/

namespace SymbolGraph.Text.Quoted

/-- `n` in hexadecimal, in lower case, `width` digits wide. -/
def hex : (width : Nat) → (n : Nat) → List Char
  | 0, _ => []
  | width + 1, n => hex width (n / 16) ++ [Nat.digitChar (n % 16)]

/-- The number of a character, in the shortest of the three widths that holds it. -/
def numbered (c : Char) : List Char :=
  let n := c.toNat
  if n < 0x100 then '\\' :: 'x' :: hex 2 n
  else if n < 0x10000 then '\\' :: 'u' :: hex 4 n
  else '\\' :: 'U' :: hex 8 n

def encodeChar (quote : Char) (c : Char) : List Char :=
  if c = quote ∨ c = '\\' then ['\\', c]
  else if c = '\n' then ['\\', 'n']
  else if c = '\r' then ['\\', 'r']
  else if c = '\t' then ['\\', 't']
  else if isPrintable c then [c]
  else numbered c

/-- The quote a text is shown between. -/
def quoteOf (s : String) : Char :=
  if s.toList.contains '\'' && !s.toList.contains '"' then '"' else '\''

def encode (s : String) : String :=
  let quote := quoteOf s
  String.ofList (quote :: s.toList.flatMap (encodeChar quote) ++ [quote])

end SymbolGraph.Text.Quoted
