import SymbolGraph.Cst.Basic
import SymbolGraph.Json.Basic

/-!
# `Cst.Json` — concrete syntax trees as JSON records

A node is an object with its type `t`, its range `s` to `e`, its field `f` and
its children `c`; `a` marks an anonymous node and `m` a missing one.
-/

namespace SymbolGraph.Cst

/-- A mark that is set. -/
def isSet (name : String) (members : List (String × Json)) : Bool :=
  match Dict.get? name members with
  | some (.bool b) => b
  | _ => false

def offset (name : String) (members : List (String × Json)) : Int :=
  match Dict.get? name members with
  | some (.int n) => n
  | _ => 0

def word? (name : String) (members : List (String × Json)) : Option String :=
  match Dict.get? name members with
  | some (.str s) => some s
  | _ => none

/-- A record without its children. -/
def headOfJson (members : List (String × Json)) : Head where
  type := (word? "t" members).getD ""
  start := offset "s" members
  stop := offset "e" members
  named := !isSet "a" members
  missing := isSet "m" members
  field := word? "f" members

mutual

/-- Reads a record; what is no object is an empty node. -/
def ofJson : Json → Cst
  | .obj members => node (headOfJson members) (childrenOfMembers members)
  | _ => node (headOfJson []) []

/-- The children that the members of a record list. -/
def childrenOfMembers : List (String × Json) → List Cst
  | [] => []
  | (name, .arr items) :: rest => if name = "c" then ofJsons items else childrenOfMembers rest
  | (_, _) :: rest => childrenOfMembers rest

def ofJsons : List Json → List Cst
  | [] => []
  | j :: rest => ofJson j :: ofJsons rest

end

end SymbolGraph.Cst
