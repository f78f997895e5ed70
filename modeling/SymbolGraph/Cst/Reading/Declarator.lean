import SymbolGraph.Cst.Reading.Specifier

/-!
# `Cst.Reading.Declarator` — what a declaration declares

A declarator is a chain of nodes around a name.  It is nested if some link
of the chain stands in parentheses, and it declares a function if some link
is a function declarator; the one closest to the name counts.
-/

namespace SymbolGraph.Reading

/-- A chain that leads to no name. -/
def noDeclarator : Declarator := ⟨{}, none, false, none⟩

/-- A parameter of a function or block. -/
def parameter (r : Reading) : Parameter :=
  ⟨r.excerpt, specifiersIn r.children, (field? "declarator" r.children).map (·.declarator)⟩

/-- The parameters in a list of them. -/
def parametersOf : Option Reading → List Parameter
  | none => []
  | some r => ((named r.children).filter fun c => Text.has c.type "parameter").map parameter

/-- The next link of a chain. -/
def innerDeclarator? (children : List Reading) : Option Reading :=
  (field? "declarator" children).or
    ((named children).find? fun c => c.head.isName || c.head.isDeclarator)

/-- A node as a declarator. -/
def declaratorOf (head : Head) (excerpt : Excerpt) (children : List Reading) : Declarator :=
  if head.isName then ⟨excerpt, some excerpt, false, none⟩
  else if head.type == "parenthesized_declarator" then
    let inner := ((named children).head?.map (·.declarator)).getD noDeclarator
    ⟨excerpt, inner.name, true, inner.parameters⟩
  else
    let inner := ((innerDeclarator? children).map (·.declarator)).getD noDeclarator
    let parameters :=
      if head.type == "function_declarator" && inner.parameters.isNone then
        some (parametersOf (field? "parameters" children))
      else inner.parameters
    ⟨excerpt, inner.name, inner.nested, parameters⟩

/-- The names that the children declare. -/
def declaredNames (children : List Reading) : List Excerpt :=
  let marked := filling "declarator" children
  let declarators :=
    if marked.isEmpty then
      (named children).filter fun c =>
        c.head.isDeclarator || c.type == "field_identifier" || c.type == "identifier"
    else marked
  declarators.filterMap (·.declarator.name)

/-- A declarator without a value. -/
def bareDeclarator (r : Reading) : InitDeclarator := ⟨r.excerpt, some r.declarator, none⟩

/-- A declarator with its value, if it has one. -/
def initDeclarator (r : Reading) : InitDeclarator :=
  if r.type == "init_declarator" then
    ⟨r.excerpt, (field? "declarator" r.children).map (·.declarator), fieldNode? "value" r.children⟩
  else bareDeclarator r

/-- A declaration of variables or functions. -/
def declaration (excerpt : Excerpt) (children : List Reading) : Declaration where
  excerpt
  storage := ((named children).filter (·.type == "storage_class_specifier")).map (·.excerpt.text)
  specifiers := specifiersIn children
  declarators := (filling "declarator" children).map initDeclarator

/-- A declaration of types. -/
def typeDefinition (excerpt : Excerpt) (children : List Reading) : Declaration where
  excerpt
  storage := ["typedef"]
  specifiers := specifiersIn children
  declarators := (filling "declarator" children).map bareDeclarator

end SymbolGraph.Reading
