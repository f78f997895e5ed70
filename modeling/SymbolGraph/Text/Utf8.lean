/-!
# `Text.Utf8` — octets read as UTF-8, leniently and strictly

One machine (`State`, `first`, `next`) drives both readings.  It accepts an octet
only if some well-formed character still begins with what it has seen, so
the place where it refuses an octet is exactly the end of a MAXIMAL
ill-formed part:

  * `decode` puts one replacement character for each such part and goes on
    with the refused octet;
  * `decode?` stops at the first such part and says where it lies.
-/

namespace SymbolGraph.Text.Utf8

/-- Between characters, or inside one: how many octets are still needed, the
range the next one has to lie in, and the bits gathered so far. -/
inductive State where
  | idle
  | within (needed : Nat) (low high : UInt8) (bits : Nat)
  deriving Repr, DecidableEq

/-- The state after the first octet of a character, and the character itself
if it has one octet only; `none` if no character starts so. -/
def first (b : UInt8) : Option (State × Option Char) :=
  if b < 0x80 then some (.idle, some (Char.ofNat b.toNat))
  else if b < 0xC2 then none
  else if b < 0xE0 then some (.within 1 0x80 0xBF (b.toNat % 32), none)
  else if b = 0xE0 then some (.within 2 0xA0 0xBF 0, none)
  else if b = 0xED then some (.within 2 0x80 0x9F 13, none)
  else if b < 0xF0 then some (.within 2 0x80 0xBF (b.toNat % 16), none)
  else if b = 0xF0 then some (.within 3 0x90 0xBF 0, none)
  else if b < 0xF4 then some (.within 3 0x80 0xBF (b.toNat % 8), none)
  else if b = 0xF4 then some (.within 3 0x80 0x8F 4, none)
  else none

/-- The state after a further octet of a character, and the character if that
octet completes it; `none` if the octet cannot stand there. -/
def next (needed : Nat) (low high : UInt8) (bits : Nat) (b : UInt8) :
    Option (State × Option Char) :=
  if low ≤ b ∧ b ≤ high then
    let gathered := bits * 64 + b.toNat % 64
    if needed ≤ 1 then some (.idle, some (Char.ofNat gathered))
    else some (.within (needed - 1) 0x80 0xBF gathered, none)
  else none

/-- What stands for an ill-formed part. -/
def replacement : Char := Char.ofNat 0xFFFD

/-- A completed character goes onto those already read, the latest first. -/
def emit (c : Option Char) (read : List Char) : List Char :=
  match c with
  | some c => c :: read
  | none => read

/-- Lenient reading from a state: one replacement character for each maximal
ill-formed part, a part cut off by the end of the input included.  `read`
holds the characters so far, the latest first. -/
def decodeFrom : State → List UInt8 → List Char → List Char
  | .idle, [], read => read.reverse
  | .within .., [], read => (replacement :: read).reverse
  | .idle, b :: rest, read =>
      match first b with
      | some (state, c) => decodeFrom state rest (emit c read)
      | none => decodeFrom .idle rest (replacement :: read)
  | .within needed low high bits, b :: rest, read =>
      match next needed low high bits b with
      | some (state, c) => decodeFrom state rest (emit c read)
      | none =>
          match first b with
          | some (state, c) => decodeFrom state rest (emit c (replacement :: read))
          | none => decodeFrom .idle rest (replacement :: replacement :: read)

/-- The text of some octets, ill-formed parts replaced. -/
def decode (octets : List UInt8) : String := String.ofList (decodeFrom .idle octets [])

/-- Why strict reading stops. -/
inductive Reason where
  | start
  | continuation
  | truncated
  deriving Repr, DecidableEq

def Reason.message : Reason → String
  | .start => "invalid start byte"
  | .continuation => "invalid continuation byte"
  | .truncated => "unexpected end of data"

/-- The first ill-formed part: its first octet, its place, its length. -/
structure Fault where
  octet : UInt8
  position : Nat
  length : Nat
  reason : Reason
  deriving Repr, DecidableEq

/-- Two hexadecimal digits, in lower case. -/
def hexPair (n : Nat) : String :=
  String.ofList [Nat.digitChar (n / 16 % 16), Nat.digitChar (n % 16)]

/-- A part of one octet is named with that octet, a longer one by its ends. -/
def Fault.message (f : Fault) : String :=
  let place :=
    if f.length ≤ 1 then
      "byte 0x" ++ hexPair f.octet.toNat ++ " in position " ++ toString f.position
    else
      "bytes in position " ++ toString f.position ++ "-" ++ toString (f.position + f.length - 1)
  "'utf-8' codec can't decode " ++ place ++ ": " ++ f.reason.message

/-- Strict reading from a state.  `opened` is the first octet and the place
of the character that is being read, `position` the place of the next octet. -/
def decodeFrom? : State → UInt8 × Nat → Nat → List UInt8 → List Char → Except Fault (List Char)
  | .idle, _, _, [], read => .ok read.reverse
  | .within .., opened, position, [], _ =>
      .error ⟨opened.1, opened.2, position - opened.2, .truncated⟩
  | .idle, _, position, b :: rest, read =>
      match first b with
      | some (state, c) => decodeFrom? state (b, position) (position + 1) rest (emit c read)
      | none => .error ⟨b, position, 1, .start⟩
  | .within needed low high bits, opened, position, b :: rest, read =>
      match next needed low high bits b with
      | some (state, c) => decodeFrom? state opened (position + 1) rest (emit c read)
      | none => .error ⟨opened.1, opened.2, position - opened.2, .continuation⟩

/-- The text of some octets, or the first part that is not UTF-8. -/
def decode? (octets : List UInt8) : Except Fault String :=
  (decodeFrom? .idle (0, 0) 0 octets []).map String.ofList

/-- The octets of a text. -/
def encode (s : String) : Array UInt8 := s.toUTF8.data

end SymbolGraph.Text.Utf8
