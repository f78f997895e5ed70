import SymbolGraph.Dict
import SymbolGraph.Key

/-!
# `Scope` — the stack of open scopes

Frames are addressed by position and used again: closing a scope empties
its frame and moves the cursor down, and the next scope opened takes that
frame over.  Frame `0` is the scope of the file and is never closed.  Seen
from outside, this is a plain stack of maps.
-/

namespace SymbolGraph

/-- A variable that a scope declares. -/
structure Binding where
  name : String
  type : Option String
  key : Key
  deriving Repr, DecidableEq, Inhabited

/-- The variables of one scope. -/
abbrev Frame := Dict Binding

/-- Frames, and how many of them are in use. -/
structure Scopes where
  frames : Array Frame
  depth : Nat
  deriving Repr, DecidableEq, Inhabited

namespace Scopes

/-- Only the scope of the file is open. -/
def initial : Scopes := ⟨#[[]], 1⟩

/-- Opens a scope, in an empty frame. -/
def push (s : Scopes) : Scopes :=
  if s.depth = s.frames.size then ⟨s.frames.push [], s.depth + 1⟩
  else ⟨s.frames.setIfInBounds s.depth [], s.depth + 1⟩

/-- Closes the innermost scope, and empties its frame; `none` if only the scope
of the file is left. -/
def pop? (s : Scopes) : Option Scopes :=
  if s.depth ≤ 1 then none
  else some ⟨s.frames.setIfInBounds (s.depth - 1) [], s.depth - 1⟩

/-- Closes the innermost scope, unless it is that of the file. -/
def pop (s : Scopes) : Scopes := s.pop?.getD s

/-- Declares a variable in the innermost scope, in place of one with its name. -/
def declare (s : Scopes) (b : Binding) : Scopes :=
  { s with frames := s.frames.modify (s.depth - 1) (Dict.set b.name b) }

/-- The first frame below position `n`, from the top, that has the name. -/
def lookupBelow (s : Scopes) (name : String) : (n : Nat) → Option Binding
  | 0 => none
  | n + 1 =>
      match (s.frames.getD n []).get? name with
      | some b => some b
      | none => lookupBelow s name n

/-- The innermost variable with a name. -/
def lookup (s : Scopes) (name : String) : Option Binding := s.lookupBelow name s.depth

end Scopes

/-- Why a scope is not closed. -/
inductive ScopeError where
  | fileScope
  deriving Repr, DecidableEq

def ScopeError.message : ScopeError → String
  | .fileScope => "cannot pop the file scope frame"

end SymbolGraph
