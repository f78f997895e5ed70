/-!
# `Text.Basic` — blanks, line ends, the edges of a text and its case

Blanks and line ends are those of Unicode, with the four separators of
ASCII among them; `isWhiteSpace` is without these.  Nothing here looks inside
a line: what is trimmed stands at the edge of a text, and `firstLine` is what
stands before the first line end.

Names of variables and words for truth values are compared in lower case.
Those are words of ASCII letters, so only these letters have a case here.
-/

namespace SymbolGraph.Text

/-- The Unicode property `White_Space`. -/
def isWhiteSpace (c : Char) : Bool :=
  let n := c.toNat
  (0x9 ≤ n && n ≤ 0xD) || n == 0x20 || n == 0x85 || n == 0xA0 || n == 0x1680 ||
    (0x2000 ≤ n && n ≤ 0x200A) || n == 0x2028 || n == 0x2029 || n == 0x202F || n == 0x205F ||
    n == 0x3000

/-- White space, or one of the four separators of ASCII. -/
def isBlank (c : Char) : Bool := isWhiteSpace c || (0x1C ≤ c.toNat && c.toNat ≤ 0x1F)

/-- The characters that end a line. -/
def isLineEnd (c : Char) : Bool :=
  let n := c.toNat
  (0xA ≤ n && n ≤ 0xD) || (0x1C ≤ n && n ≤ 0x1E) || n == 0x85 || n == 0x2028 || n == 0x2029

/-- A text without the characters of a class at its start. -/
def trimStart (p : Char → Bool) (s : String) : String :=
  String.ofList (s.toList.dropWhile p)

/-- A text without the characters of a class at either end. -/
def trim (p : Char → Bool) (s : String) : String :=
  String.ofList ((s.toList.dropWhile p).reverse.dropWhile p).reverse

/-- What stands before the first line end, or `none` if the text is empty:
an empty text has no line at all. -/
def firstLine? (s : String) : Option String :=
  match s.toList with
  | [] => none
  | cs => some (String.ofList (cs.takeWhile fun c => !isLineEnd c))

/-- The text with its ASCII letters in lower case. -/
def lower (s : String) : String := String.ofList (s.toList.map Char.toLower)

/-- The text starts with the given one. -/
def startsWith (s start : String) : Bool := start.toList.isPrefixOf s.toList

/-- The text ends with the given one. -/
def endsWith (s finish : String) : Bool := finish.toList.isSuffixOf s.toList

/-- The first list occurs in the second one, its members side by side. -/
def occursIn {α : Type} [BEq α] (part : List α) : List α → Bool
  | [] => part.isEmpty
  | c :: rest => part.isPrefixOf (c :: rest) || occursIn part rest

/-- The second text occurs in the first one. -/
def has (s part : String) : Bool := occursIn part.toList s.toList

end SymbolGraph.Text
