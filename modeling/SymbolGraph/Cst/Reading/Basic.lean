import SymbolGraph.Cst.Basic
import SymbolGraph.Text.Basic

/-!
# `Cst.Reading.Basic` — what a node means in each role it can play

The same node can be looked at as an expression or statement, as a type
specifier, as a declarator, or just as a place where names stand.  A
`Reading` holds all of these at once, together with the readings of the
children.  Readings are made from the leaves up, so every role of a node is
a plain function of the readings below it, and nothing is read twice.
-/

namespace SymbolGraph

/-- A node of a concrete syntax tree with its meanings. -/
structure Reading where
  head : Head
  excerpt : Excerpt
  /-- As an expression, statement or declaration, if it can be one. -/
  node : Option Node
  /-- The names at or below it, in order. -/
  names : List Excerpt
  /-- As a type specifier: usually one, one for each keyword of a sized type. -/
  specifiers : List Specifier
  /-- As a declarator. -/
  declarator : Declarator
  children : List Reading

/-! ## Types of nodes -/

def nameTypes : List String := ["identifier", "type_identifier", "field_identifier"]

/-- Names that can be read as expressions. -/
def expressionNameTypes : List String := ["identifier", "type_identifier", "self", "super"]

def specifierTypes : List String :=
  ["primitive_type", "type_identifier", "sized_type_specifier", "struct_specifier",
    "union_specifier", "enum_specifier", "generic_type_specifier", "macro_type_specifier",
    "typedefed_specifier", "id"]

def protocolListTypes : List String :=
  ["protocol_qualifiers", "protocol_reference_list", "parameterized_arguments",
    "protocol_identifier_list"]

def ivarTypes : List String :=
  ["instance_variable", "struct_declaration", "field_declaration", "declaration"]

def visibilityMarks : List String := ["@public", "@private", "@protected", "@package"]

/-- Leaves in which no name can occur. -/
def skippedTypes : List String :=
  ["comment", "string_literal", "string_content", "concatenated_string", "char_literal",
    "number_literal", "escape_sequence", "system_lib_string", "field_identifier",
    "statement_identifier", "true", "false", "null"]

namespace Head

def isName (h : Head) : Bool := nameTypes.contains h.type

def isSpecifier (h : Head) : Bool := specifierTypes.contains h.type

def isProtocolList (h : Head) : Bool := protocolListTypes.contains h.type

def isIvar (h : Head) : Bool := ivarTypes.contains h.type

/-- Its type says that it is some declarator. -/
def isDeclarator (h : Head) : Bool := Text.endsWith h.type "declarator"

end Head

namespace Reading

def type (r : Reading) : String := r.head.type

/-- The children that are not punctuation. -/
def named (children : List Reading) : List Reading := children.filter (·.head.named)

/-- The children that fill a field. -/
def filling (field : String) (children : List Reading) : List Reading :=
  children.filter (·.head.field == some field)

/-- The first child that fills a field. -/
def field? (field : String) (children : List Reading) : Option Reading :=
  children.find? (·.head.field == some field)

/-- The excerpt of the first child that fills a field. -/
def fieldExcerpt? (field : String) (children : List Reading) : Option Excerpt :=
  (field? field children).map (·.excerpt)

/-- The expression in a field. -/
def fieldNode? (field : String) (children : List Reading) : Option Node :=
  (field? field children).bind (·.node)

/-- Some child has the type. -/
def hasType (type : String) (children : List Reading) : Bool := children.any (·.type == type)

/-- The children as expressions and statements, those that are none left out. -/
def nodes (children : List Reading) : List Node := (named children).filterMap (·.node)

end Reading

end SymbolGraph
