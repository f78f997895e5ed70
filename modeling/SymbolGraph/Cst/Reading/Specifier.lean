import SymbolGraph.Cst.Reading.Basic
import SymbolGraph.Text.Identifier

/-!
# `Cst.Reading.Specifier` — names and types

Types are specified by nodes in the field `type`; where no child fills it, by
the children of a specifier's type.  Protocols in angle brackets belong to the
last specifier before them.
-/

namespace SymbolGraph

namespace Specifier

/-- The same specifier with further protocols. -/
def addProtocols (more : List Excerpt) : Specifier → Specifier
  | .named e name protocols => .named e name (protocols ++ more)
  | .primitive e protocols => .primitive e (protocols ++ more)
  | .struct e name protocols => .struct e name (protocols ++ more)
  | .enum e enumeration protocols => .enum e enumeration (protocols ++ more)
  | .other e protocols => .other e (protocols ++ more)

/-- Gives protocols to the last specifier; without one they are dropped. -/
def addProtocolsToLast (more : List Excerpt) : List Specifier → List Specifier
  | [] => []
  | [s] => [s.addProtocols more]
  | s :: rest => s :: addProtocolsToLast more rest

end Specifier

namespace Reading

/-- The names at or below a node. -/
def namesOf (head : Head) (excerpt : Excerpt) (children : List Reading) : List Excerpt :=
  if head.isName then [excerpt] else (named children).flatMap (·.names)

/-- The protocols that the children list. -/
def protocolsIn (children : List Reading) : List Excerpt :=
  ((named children).filter (·.head.isProtocolList)).flatMap (·.names)

/-- The specifiers that the children give. -/
def specifiersIn (children : List Reading) : List Specifier :=
  let marked := filling "type" children
  let types := if marked.isEmpty then (named children).filter (·.head.isSpecifier) else marked
  Specifier.addProtocolsToLast (protocolsIn children) (types.flatMap (·.specifiers))

/-- A type in parentheses; its specifiers may lie one level deeper. -/
def typeName (r : Reading) : TypeName :=
  let inner := (named r.children).find? fun c =>
    c.type == "type_descriptor" || c.type == "type_name"
  ⟨r.excerpt, specifiersIn (inner.getD r).children⟩

/-- A constant of an enumeration. -/
def enumerator (r : Reading) : Enumerator :=
  ⟨r.excerpt, fieldExcerpt? "name" r.children, fieldNode? "value" r.children⟩

def enumeration (excerpt : Excerpt) (children : List Reading) : Enumeration where
  excerpt
  name := fieldExcerpt? "name" children
  underlying := (field? "underlying_type" children).map fun u => ⟨u.excerpt, u.specifiers⟩
  constants := match field? "body" children with
    | none => []
    | some body => ((named body.children).filter (·.type == "enumerator")).map enumerator

/-- A part of a specifier for a type that the language predefines by name:
such names are keywords of the grammar. -/
def predefinedPart (c : Reading) : List Specifier :=
  if c.head.named then
    if c.head.isProtocolList then [] else c.specifiers
  else if c.type == "id" then [.primitive c.excerpt []]
  else if Text.isIdentifier c.type then [.named c.excerpt (some c.excerpt) []]
  else []

/-- A node as a type specifier. -/
def specifiersOf (head : Head) (excerpt : Excerpt) (children : List Reading) : List Specifier :=
  match head.type with
  | "primitive_type" | "id" => [.primitive excerpt []]
  | "sized_type_specifier" =>
      (children.filter (!·.head.isName)).map fun c => .primitive c.excerpt []
  | "type_identifier" => [.named excerpt (some excerpt) []]
  | "typedefed_specifier" =>
      Specifier.addProtocolsToLast (protocolsIn children) (children.flatMap predefinedPart)
  | "struct_specifier" | "union_specifier" => [.struct excerpt (fieldExcerpt? "name" children) []]
  | "enum_specifier" => [.enum excerpt (some (enumeration excerpt children)) []]
  | "generic_type_specifier" =>
      let name := (fieldExcerpt? "type_name" children).or (namesOf head excerpt children).head?
      let arguments := ((named children).filter (!·.head.isName)).flatMap (·.names)
      [.named excerpt name arguments]
  | _ => [.other excerpt []]

end Reading

end SymbolGraph
