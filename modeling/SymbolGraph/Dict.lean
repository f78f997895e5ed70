/-!
# `Dict` — a map that remembers the order of first insertion

Writing to a key that is already there keeps its place and changes its
value; a new key goes to the end.  The list of pairs is the data, so the
order that answers show is the order of the list.
-/

namespace SymbolGraph

/-- A map from texts, in the order in which its keys were first written. -/
abbrev Dict (α : Type) := List (String × α)

namespace Dict

variable {α : Type}

def get? (key : String) : Dict α → Option α
  | [] => none
  | (k, v) :: rest => if k = key then some v else get? key rest

/-- Writes a value, in place if the key is there, else at the end. -/
def set (key : String) (value : α) : Dict α → Dict α
  | [] => [(key, value)]
  | (k, v) :: rest => if k = key then (k, value) :: rest else (k, v) :: set key value rest

def erase (key : String) : Dict α → Dict α
  | [] => []
  | (k, v) :: rest => if k = key then rest else (k, v) :: erase key rest

def keys (d : Dict α) : List String := d.map (·.1)

end Dict

/-- A list without repetitions used as a set: a new member goes to the end. -/
def insertNew (s : String) (set : List String) : List String :=
  if s ∈ set then set else set ++ [s]

/-- The members of a list in the order of their code points. -/
def sortTexts (texts : List String) : List String :=
  texts.mergeSort fun a b => a ≤ b

end SymbolGraph
