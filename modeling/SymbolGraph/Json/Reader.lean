import SymbolGraph.Json.Token

/-!
# `Json.Reader` — JSON text read as a value

The containers that are still open lie on a stack, innermost first, and one
token takes the reader from stack to stack.  Nothing recurses into the
text, so the depth of a value costs no more than its length; how deep a
value may lie is a limit of the dialect.  If an object names a
member twice, the last value stays, in the place of the first.
-/

namespace SymbolGraph.Json

/-- A container that is still open.  An array holds its items so far, the latest
first; an object its members so far and the name of the one being read. -/
inductive Frame where
  | array (items : List Json)
  | object (members : Dict Json) (name : String)
  deriving Inhabited

/-- What has to come next. -/
inductive Mode where
  | value
  | firstItem
  | name
  | firstName
  | colon
  | after
  | done (value : Json)

/-- A value is complete: it goes into the innermost open container. -/
def complete (value : Json) : List Frame → List Frame × Mode
  | [] => ([], .done value)
  | .array items :: outer => (.array (value :: items) :: outer, .after)
  | .object members name :: outer => (.object (Dict.set name value members) name :: outer, .after)

/-- A token where a value starts, if it lies no deeper than `limit`. -/
def startValue (limit : Nat) (token : Token) (stack : List Frame) :
    Except Fault (List Frame × Mode) :=
  if limit < stack.length then .error (.tooDeep (token matches .openObject))
  else match token with
    | .word value => .ok (complete value stack)
    | .text s => .ok (complete (.str s) stack)
    | .openArray => .ok (.array [] :: stack, .firstItem)
    | .openObject => .ok (.object [] "" :: stack, .firstName)
    | _ => .error .malformed

/-- The innermost container is closed by its own mark. -/
def close (token : Token) (stack : List Frame) : Option (List Frame × Mode) :=
  match token, stack with
  | .closeArray, .array items :: outer => some (complete (.arr items.reverse) outer)
  | .closeObject, .object members _ :: outer => some (complete (.obj members) outer)
  | _, _ => none

/-- The name of a member. -/
def startMember (token : Token) (stack : List Frame) : Option (List Frame × Mode) :=
  match token, stack with
  | .text s, .object members _ :: outer => some (.object members s :: outer, .colon)
  | _, _ => none

/-- What a part of the grammar gives, or a fault if it gives nothing. -/
def orMalformed {α : Type} : Option α → Except Fault α
  | some a => .ok a
  | none => .error .malformed

/-- One token. -/
def step (limit : Nat) (token : Token) (stack : List Frame) (mode : Mode) :
    Except Fault (List Frame × Mode) :=
  match mode with
  | .value => startValue limit token stack
  | .firstItem => match close token stack with
      | some closed => .ok closed
      | none => startValue limit token stack
  | .name => orMalformed (startMember token stack)
  | .firstName => orMalformed ((close token stack).or (startMember token stack))
  | .colon => match token with
      | .colon => .ok (stack, .value)
      | _ => .error .malformed
  | .after => match token, stack with
      | .comma, .array _ :: _ => .ok (stack, .value)
      | .comma, .object .. :: _ => .ok (stack, .name)
      | _, _ => orMalformed (close token stack)
  | .done _ => .error .malformed

/-- All tokens from a stack: the value, if they make up exactly one. -/
def readFrom (limit : Nat) : List Token → List Frame → Mode → Except Fault Json
  | [], _, .done value => .ok value
  | [], _, _ => .error .malformed
  | token :: rest, stack, mode =>
      match step limit token stack mode with
      | .ok (stack, mode) => readFrom limit rest stack mode
      | .error fault => .error fault

/-- The value a text stands for in a dialect. -/
def parse (d : Dialect) (text : String) : Except Fault Json :=
  match tokens? d text.toList with
  | some tokens => readFrom d.nesting tokens [] .value
  | none => .error .malformed

/-- The value, if there is one. -/
def parse? (d : Dialect) (text : String) : Option Json := (parse d text).toOption

end SymbolGraph.Json
