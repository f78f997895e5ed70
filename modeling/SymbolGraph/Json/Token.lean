import SymbolGraph.Json.Basic
import SymbolGraph.Number.Decimal

/-!
# `Json.Token` — JSON text as a list of tokens

One pass over the characters.  Between tokens, blanks are skipped and marks
are taken; a quotation mark starts a string, which has a little machine of
its own for escapes; anything else starts a WORD, which runs up to the next
character that cannot belong to one, and is then read as a whole: a
constant or a number.  Two words never stand side by side in well-formed
text, so taking the longest word loses nothing.

Readers of JSON agree on the grammar and differ in their limits: how deep a
value may lie, how long a number may be, and whether an escaped half of a
pair may stand alone.  A `Dialect` has the limits of one reader.
-/

namespace SymbolGraph.Json

open Number (Binary64 Decimal)

/-! ## Limits -/

/-- The limits of a reader. -/
structure Dialect where
  /-- How many containers may lie around a value. -/
  nesting : Nat
  /-- The numbers that are not too long. -/
  accepts : Decimal → Bool := fun _ => true
  /-- Half of a pair may stand alone, and is read as the replacement character. -/
  loneHalves : Bool := false

/-- How many digits of an integer are read. -/
def maxDigits : Nat := 4300

/-- No more digits stand before the point than an integer may have. -/
def hasShortWhole (d : Decimal) : Bool := d.whole.length ≤ maxDigits

/-- The number has a fraction or an exponent, or is a short enough integer. -/
def isShortIfInteger (d : Decimal) : Bool :=
  hasShortWhole d || d.fraction.isSome || d.exponent.isSome

/-- Why a text has no value. -/
inductive Fault where
  | malformed
  /-- Too many arrays or objects lie inside each other; the one that is too much
  is an object or not. -/
  | tooDeep (object : Bool)
  deriving Repr, DecidableEq

/-! ## Tokens -/

inductive Token where
  | openArray
  | closeArray
  | openObject
  | closeObject
  | comma
  | colon
  | word (value : Json)
  | text (s : String)
  deriving Repr, Inhabited

/-- Where in a string the reader stands: at a plain place, after a backslash,
inside a number of four hexadecimal digits, between the two halves of a pair
of such numbers, or behind the end. -/
inductive StringState where
  | plain
  | escape
  | number (left : Nat) (value : Nat) (high : Option Nat)
  | second (high : Nat)
  | secondMark (high : Nat)
  | closed
  deriving Repr, DecidableEq

def hexValue? (c : Char) : Option Nat :=
  if c.isDigit then some (c.toNat - 48)
  else if 'a' ≤ c ∧ c ≤ 'f' then some (c.toNat - 87)
  else if 'A' ≤ c ∧ c ≤ 'F' then some (c.toNat - 55)
  else none

/-- What a backslash and a letter stand for. -/
def escaped? : Char → Option Char
  | '"' => some '"'
  | '\\' => some '\\'
  | '/' => some '/'
  | 'b' => some '\x08'
  | 'f' => some '\x0c'
  | 'n' => some '\n'
  | 'r' => some '\r'
  | 't' => some '\t'
  | _ => none

/-- What a number by itself does: the first half of a pair waits for the
second, any other number is a character, and a second half without a first
one stands alone. -/
def numbered (d : Dialect) (value : Nat) (read : List Char) : Option (StringState × List Char) :=
  if 0xD800 ≤ value ∧ value < 0xDC00 then some (.second value, read)
  else if 0xDC00 ≤ value ∧ value < 0xE000 then
    if d.loneHalves then some (.plain, '\ufffd' :: read) else none
  else some (.plain, Char.ofNat value :: read)

/-- One character at a plain place.  `read` holds the string so far, the latest
character first. -/
def plainStep (c : Char) (read : List Char) : Option (StringState × List Char) :=
  if c = '"' then some (.closed, read)
  else if c = '\\' then some (.escape, read)
  else if c.toNat < 0x20 then none
  else some (.plain, c :: read)

/-- One character after a backslash. -/
def escapeStep (c : Char) (read : List Char) : Option (StringState × List Char) :=
  if c = 'u' then some (.number 4 0 none, read)
  else (escaped? c).map fun e => (.plain, e :: read)

/-- One character inside a string.  A first half that no second half follows
stands alone. -/
def stringStep (d : Dialect) (state : StringState) (c : Char) (read : List Char) :
    Option (StringState × List Char) :=
  match state with
  | .plain => plainStep c read
  | .escape => escapeStep c read
  | .number left value high =>
      match hexValue? c with
      | none => none
      | some digit =>
          let value := 16 * value + digit
          if 1 < left then some (.number (left - 1) value high, read)
          else match high with
            | none => numbered d value read
            | some h =>
                if 0xDC00 ≤ value ∧ value < 0xE000 then
                  some (.plain,
                    Char.ofNat (0x10000 + (h - 0xD800) * 0x400 + (value - 0xDC00)) :: read)
                else if d.loneHalves then numbered d value ('\ufffd' :: read)
                else none
  | .second high =>
      if c = '\\' then some (.secondMark high, read)
      else if d.loneHalves then plainStep c ('\ufffd' :: read)
      else none
  | .secondMark high =>
      if c = 'u' then some (.number 4 0 (some high), read)
      else if d.loneHalves then escapeStep c ('\ufffd' :: read)
      else none
  | .closed => none

/-- Characters that may belong to a word. -/
def isWordPart (c : Char) : Bool :=
  c.isAlphanum || c == '+' || c == '-' || c == '.'

/-- The form of a JSON number: digits before the point, no zero before another
digit, and digits after the point if there is one. -/
def isNumber (n : Decimal) : Bool :=
  n.whole ≠ [] && (n.whole.head? ≠ some '0' || n.whole.length ≤ 1) && n.fraction ≠ some []

/-- A number of JSON, with no sign but `-`. -/
def number? (d : Dialect) (word : List Char) : Option Json :=
  match Decimal.split false word with
  | none => none
  | some n =>
      if !isNumber n || !d.accepts n then none
      else match n.fraction, n.exponent with
        | none, none =>
            let value : Int := Decimal.value n.whole
            some (.int (if n.negative then -value else value))
        | _, _ => some (.float n.toBinary64)

/-- A constant or a number. -/
def word? (d : Dialect) (word : List Char) : Option Json :=
  match String.ofList word with
  | "null" => some .null
  | "true" => some (.bool true)
  | "false" => some (.bool false)
  | "NaN" => some (.float .nan)
  | "Infinity" => some (.float (.infinite false))
  | "-Infinity" => some (.float (.infinite true))
  | _ => number? d word

def mark? : Char → Option Token
  | '[' => some .openArray
  | ']' => some .closeArray
  | '\x7b' => some .openObject
  | '\x7d' => some .closeObject
  | ',' => some .comma
  | ':' => some .colon
  | _ => none

def isSpace (c : Char) : Bool := c == ' ' || c == '\t' || c == '\n' || c == '\r'

/-- Between tokens, inside a string, or inside a word. -/
inductive LexState where
  | between
  | string (state : StringState) (read : List Char)
  | word (read : List Char)

/-- One character between tokens. -/
def betweenStep (c : Char) (tokens : List Token) : Option (LexState × List Token) :=
  if isSpace c then some (.between, tokens)
  else if c = '"' then some (.string .plain [], tokens)
  else match mark? c with
    | some token => some (.between, token :: tokens)
    | none => if isWordPart c then some (.word [c], tokens) else none

/-- One character.  `tokens` holds the tokens so far, the latest first. -/
def lexStep (d : Dialect) (state : LexState) (c : Char) (tokens : List Token) :
    Option (LexState × List Token) :=
  match state with
  | .between => betweenStep c tokens
  | .string s read =>
      match stringStep d s c read with
      | none => none
      | some (.closed, read) => some (.between, .text (String.ofList read.reverse) :: tokens)
      | some (s, read) => some (.string s read, tokens)
  | .word read =>
      if isWordPart c then some (.word (c :: read), tokens)
      else match word? d read.reverse with
        | some value => betweenStep c (.word value :: tokens)
        | none => none

/-- The tokens of the rest of a text. -/
def lexFrom (d : Dialect) : List Char → LexState → List Token → Option (List Token)
  | [], .between, tokens => some tokens.reverse
  | [], .string .., _ => none
  | [], .word read, tokens =>
      (word? d read.reverse).map fun value => (.word value :: tokens).reverse
  | c :: rest, state, tokens =>
      match lexStep d state c tokens with
      | some (state, tokens) => lexFrom d rest state tokens
      | none => none

/-- The tokens of a text, or `none` if some part of it is no token. -/
def tokens? (d : Dialect) (text : List Char) : Option (List Token) := lexFrom d text .between []

end SymbolGraph.Json
