import SymbolGraph.Json.Basic

/-!
# `Problem` — why a record is refused

A record is checked field by field and all problems are reported, each with
its kind and the way to the value that has it.
-/

namespace SymbolGraph

/-- A step on the way to a value: the name of a member or the place in a list. -/
inductive Place where
  | member (name : String)
  | index (i : Nat)
  deriving Repr, DecidableEq

/-- What is wrong with a value. -/
inductive Problem.Kind where
  | jsonInvalid
  | modelType
  | stringType
  | listType
  | dictType
  | boolType
  | boolParsing
  | floatType
  | floatParsing
  | greaterThanEqual
  | extraForbidden
  | valueError
  deriving Repr, DecidableEq

def Problem.Kind.name : Problem.Kind → String
  | .jsonInvalid => "json_invalid"
  | .modelType => "model_type"
  | .stringType => "string_type"
  | .listType => "list_type"
  | .dictType => "dict_type"
  | .boolType => "bool_type"
  | .boolParsing => "bool_parsing"
  | .floatType => "float_type"
  | .floatParsing => "float_parsing"
  | .greaterThanEqual => "greater_than_equal"
  | .extraForbidden => "extra_forbidden"
  | .valueError => "value_error"

structure Problem where
  kind : Problem.Kind
  location : List Place
  deriving Repr, DecidableEq

/-- A value that was checked: the value, or its problems. -/
abbrev Checked (α : Type) := Except (List Problem) α

namespace Checked

def problems {α : Type} : Checked α → List Problem
  | .ok _ => []
  | .error problems => problems

/-- A value checked as a member of a record: its problems lie one step deeper. -/
def within {α : Type} (name : String) (checked : Checked α) : Checked α :=
  checked.mapError fun problems =>
    problems.map fun p => { p with location := .member name :: p.location }

/-- A list of texts; each item that is no text is a problem. -/
def texts (field : String) (items : List Json) : Checked (List String) :=
  let wrong := items.zipIdx.filterMap fun (item, i) =>
    match item with
    | .str _ => none
    | _ => some ⟨.stringType, [.member field, .index i]⟩
  match wrong with
  | [] => .ok (items.filterMap fun item =>
      match item with
      | .str s => some s
      | _ => none)
  | wrong => .error wrong

end Checked

end SymbolGraph
