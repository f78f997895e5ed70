import SymbolGraph.Dict

/-!
# `Symbols` — what the files of a unit have declared so far

These tables are shared by all files of a run and only grow.  A type that is
`none` belongs to a variable whose type is not known by name.
-/

namespace SymbolGraph

/-- The declarations of a unit. -/
structure Symbols where
  /-- Global variables and their types. -/
  globals : Dict (Option String) := []
  /-- Classes, and the members of each with their types. -/
  members : Dict (Dict (Option String)) := []
  /-- Functions by name and methods by path. -/
  functions : List String := []
  types : List String := []
  /-- Paths of the methods that an interface, category or protocol declares. -/
  declaredMethods : List String := []
  deriving Repr, DecidableEq, Inhabited

namespace Symbols

def setGlobal (s : Symbols) (name : String) (type : Option String) : Symbols :=
  { s with globals := s.globals.set name type }

/-- The members of a class; an unknown class has none. -/
def membersOf (s : Symbols) (className : String) : Dict (Option String) :=
  (s.members.get? className).getD []

/-- Makes a class known, with the members it has. -/
def addClass (s : Symbols) (className : String) : Symbols :=
  { s with members := s.members.set className (s.membersOf className) }

def setMember (s : Symbols) (className name : String) (type : Option String) : Symbols :=
  { s with members := s.members.set className ((s.membersOf className).set name type) }

/-- The type of a member of a class: `none` if there is no such member, or no
class. -/
def member? (s : Symbols) (className : Option String) (name : String) :
    Option (Option String) :=
  match className with
  | none => none
  | some c => (s.membersOf c).get? name

def addFunction (s : Symbols) (name : String) : Symbols :=
  { s with functions := insertNew name s.functions }

def addType (s : Symbols) (name : String) : Symbols :=
  { s with types := insertNew name s.types }

/-- A declared method is a function too. -/
def declareMethod (s : Symbols) (path : String) : Symbols :=
  { s.addFunction path with declaredMethods := insertNew path s.declaredMethods }

/-- A class is a type, and its objects have a member for themselves. -/
def registerClass (s : Symbols) (className : String) : Symbols :=
  (s.addType className).setMember className "self" (some className)

end Symbols

end SymbolGraph
