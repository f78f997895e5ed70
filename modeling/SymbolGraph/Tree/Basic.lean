/-!
# `Tree.Basic` — the tree of declarations, statements and expressions

A closed set of constructs, each with the excerpt of the source it covers.
What the symbol graph does not look into is `generic`: only its children
matter.  A part that the source leaves out, or that could not be read, is
`none`.
-/

namespace SymbolGraph

/-- A stretch of the source: its text and its byte span, both ends included. -/
structure Excerpt where
  text : String := ""
  start : Int := 0
  stop : Int := 0
  deriving Repr, DecidableEq, Inhabited

mutual

/-- A construct that can be walked. -/
inductive Node where
  | unit (excerpt : Excerpt) (items : List Node)
  | inclusion (excerpt : Excerpt) (path : String) (system : Bool) (directive : String)
  | classInterface (excerpt : Excerpt) (name superclass : Option Excerpt)
      (protocols : List Excerpt) (ivars : List Ivar) (members : List Node)
  | categoryInterface (excerpt : Excerpt) (className category : Option Excerpt)
      (protocols : List Excerpt) (ivars : List Ivar) (members : List Node)
  | classImplementation (excerpt : Excerpt) (name superclass category : Option Excerpt)
      (ivars : List Ivar) (members : List Node)
  | protocolDeclaration (excerpt : Excerpt) (name : Option Excerpt) (protocols : List Excerpt)
      (members : List Node)
  | forwardDeclaration (excerpt : Excerpt) (names : List Excerpt) (isProtocol : Bool)
  | methodDeclaration (excerpt : Excerpt) (isClassMethod : Bool) (returnType : Option TypeName)
      (selector : Option Selector)
  | methodDefinition (excerpt : Excerpt) (isClassMethod : Bool) (returnType : Option TypeName)
      (selector : Option Selector) (body : Option Node)
  | propertyDeclaration (excerpt : Excerpt) (attributes : List String)
      (specifiers : List Specifier) (names : List Excerpt)
  | declaration (d : Declaration)
  | functionDefinition (excerpt : Excerpt) (specifiers : List Specifier)
      (declarator : Option Declarator) (body : Option Node)
  | compoundStatement (excerpt : Excerpt) (items : List Node)
  | forStatement (excerpt : Excerpt) (header : Option Declaration) (parts : List Node)
      (body : Option Node)
  | catchClause (excerpt : Excerpt) (parameter : Option Parameter) (body : Option Node)
  | blockExpression (excerpt : Excerpt) (parameters : List Parameter) (body : Option Node)
  | identifier (excerpt : Excerpt) (name : Option Excerpt)
  | memberAccess (excerpt : Excerpt) (receiver : Option Node) (member : Option Excerpt)
      (isArrow : Bool)
  | messageExpression (excerpt : Excerpt) (receiver : Option Node)
      (selector : Option MessageSelector)
  | castExpression (excerpt : Excerpt) (typeName : Option TypeName) (operand : Option Node)
  | generic (excerpt : Excerpt) (type : String) (children : List Node)

/-- Variables, types or prototypes declared by one list of specifiers. -/
structure Declaration where
  excerpt : Excerpt
  storage : List String
  specifiers : List Specifier
  declarators : List InitDeclarator

/-- One specifier of a type, with the protocols in angle brackets after it. -/
inductive Specifier where
  | named (excerpt : Excerpt) (name : Option Excerpt) (protocols : List Excerpt)
  | primitive (excerpt : Excerpt) (protocols : List Excerpt)
  | struct (excerpt : Excerpt) (name : Option Excerpt) (protocols : List Excerpt)
  | enum (excerpt : Excerpt) (enumeration : Option Enumeration) (protocols : List Excerpt)
  | other (excerpt : Excerpt) (protocols : List Excerpt)

/-- An enumeration, with its constants if they are listed. -/
structure Enumeration where
  excerpt : Excerpt
  name : Option Excerpt
  underlying : Option TypeName
  constants : List Enumerator

structure Enumerator where
  excerpt : Excerpt
  name : Option Excerpt
  value : Option Node

/-- A type in parentheses. -/
structure TypeName where
  excerpt : Excerpt
  specifiers : List Specifier

structure Parameter where
  excerpt : Excerpt
  specifiers : List Specifier
  declarator : Option Declarator

/-- The innermost name of a declarator; `nested` if it stands in parentheses.
A function declarator has parameters, perhaps none. -/
structure Declarator where
  excerpt : Excerpt
  name : Option Excerpt
  nested : Bool
  parameters : Option (List Parameter)

structure InitDeclarator where
  excerpt : Excerpt
  declarator : Option Declarator
  value : Option Node

/-- A line that declares instance variables. -/
structure Ivar where
  excerpt : Excerpt
  specifiers : List Specifier
  names : List Excerpt
  visibility : Option String

/-- One `keyword:(Type)name` of a method's selector. -/
structure KeywordDeclarator where
  excerpt : Excerpt
  keyword : Option Excerpt
  typeName : Option TypeName
  name : Option Excerpt

/-- The selector of a method. -/
structure Selector where
  excerpt : Excerpt
  unary : Option Excerpt
  keywords : List KeywordDeclarator

structure KeywordArgument where
  excerpt : Excerpt
  keyword : Option Excerpt
  argument : Option Node

/-- The selector of a message. -/
structure MessageSelector where
  excerpt : Excerpt
  unary : Option Excerpt
  keywords : List KeywordArgument

end

/-! Each part has an empty form. -/

instance : Inhabited Node := ⟨.unit {} []⟩
instance : Inhabited Declaration := ⟨⟨{}, [], [], []⟩⟩
instance : Inhabited Specifier := ⟨.other {} []⟩
instance : Inhabited Enumeration := ⟨⟨{}, none, none, []⟩⟩
instance : Inhabited TypeName := ⟨⟨{}, []⟩⟩
instance : Inhabited Parameter := ⟨⟨{}, [], none⟩⟩
instance : Inhabited Declarator := ⟨⟨{}, none, false, none⟩⟩
instance : Inhabited Ivar := ⟨⟨{}, [], [], none⟩⟩
instance : Inhabited Selector := ⟨⟨{}, none, []⟩⟩
instance : Inhabited MessageSelector := ⟨⟨{}, none, []⟩⟩

end SymbolGraph
