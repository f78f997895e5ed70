import SymbolGraph.Cst.Reading.Container
import SymbolGraph.Cst.Reading.Inclusion
import SymbolGraph.Cst.Reading.Selector
import SymbolGraph.Cst.Reading.Statement

/-!
# `Cst.Reading.Construct` — nodes as constructs of the tree

The type of a node decides which construct it is.  Types that nobody knows
are `generic`, unless they belong to the preprocessor and their bytes are an
include directive.
-/

namespace SymbolGraph.Reading

/-- A named node of a type in which names can occur, as a construct. -/
def construct (src : Octets) (head : Head) (excerpt : Excerpt) (names : List Excerpt)
    (specifiers : List Specifier) (children : List Reading) : Node :=
  match head.type with
  | "identifier" | "type_identifier" | "self" | "super" => .identifier excerpt (some excerpt)
  | "preproc_include" | "preproc_import" => inclusion src head excerpt children
  | "class_interface" | "category_interface" => interface excerpt children
  | "class_implementation" | "category_implementation" => implementation excerpt children
  | "protocol_declaration" => protocol excerpt names children
  | "class_declaration" | "class_forward_declaration" | "protocol_forward_declaration" =>
      forward excerpt names children
  | "method_declaration" =>
      let s := methodState src children
      .methodDeclaration excerpt (hasType "+" children) s.returnType (s.selector? src)
  | "method_definition" =>
      let s := methodState src children
      .methodDefinition excerpt (hasType "+" children) s.returnType (s.selector? src)
        (s.body.bind (·.node))
  | "property_declaration" => property excerpt children
  | "declaration" => .declaration (declaration excerpt children)
  | "type_definition" => .declaration (typeDefinition excerpt children)
  | "enum_specifier" => .declaration ⟨excerpt, [], specifiers, []⟩
  | "function_definition" => function excerpt children
  | "compound_statement" => .compoundStatement excerpt (nodes children)
  | "for_statement" | "for_in_statement" => loop excerpt children
  | "catch_clause" => catchClause excerpt children
  | "block_literal" | "block_expression" => block excerpt children
  | "field_expression" => memberAccess excerpt children
  | "message_expression" => message src excerpt children
  | "cast_expression" => cast excerpt children
  | type =>
      if Text.startsWith type "preproc" &&
          (Directive.ofBytes? (src.slice head.start head.stop)).isSome then
        inclusion src head excerpt children
      else .generic excerpt type (nodes children)

/-- A node as a construct: punctuation and leaves without names are none. -/
def nodeOf (src : Octets) (head : Head) (excerpt : Excerpt) (names : List Excerpt)
    (specifiers : List Specifier) (children : List Reading) : Option Node :=
  if !head.named || skippedTypes.contains head.type then none
  else some (construct src head excerpt names specifiers children)

/-- The reading of a node, from the readings of its children. -/
def make (src : Octets) (head : Head) (children : List Reading) : Reading :=
  let excerpt := head.excerpt src
  let names := namesOf head excerpt children
  let specifiers := specifiersOf head excerpt children
  { head, excerpt, names, specifiers, children
    node := nodeOf src head excerpt names specifiers children
    declarator := declaratorOf head excerpt children }

end SymbolGraph.Reading
