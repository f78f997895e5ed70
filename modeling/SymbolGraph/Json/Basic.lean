import SymbolGraph.Dict
import SymbolGraph.Number.Binary64

/-!
# `Json.Basic` — JSON values

Integers of any size and floating-point numbers are kept apart, as they
are in the text.  The members of an object stand in the order of their
first appearance.
-/

namespace SymbolGraph

open Number (Binary64)

/-- A JSON value. -/
inductive Json where
  | null
  | bool (b : Bool)
  | int (n : Int)
  | float (x : Binary64)
  | str (s : String)
  | arr (items : List Json)
  | obj (members : List (String × Json))
  deriving Repr, Inhabited

namespace Json

/-- A text, or `null` for none. -/
def optStr : Option String → Json
  | none => .null
  | some s => .str s

def nat (n : Nat) : Json := .int n

def strs (texts : List String) : Json := .arr (texts.map .str)

def field? (key : String) : Json → Option Json
  | .obj members => Dict.get? key members
  | _ => none

end Json

end SymbolGraph
