import SymbolGraph.Cst.Reading.Declarator

/-!
# `Cst.Reading.Statement` — loops, catch clauses, blocks and expressions

The header of a loop declares its variables in one of four shapes, which are
tried in this order: a declaration in the field `initializer`; declarators in
the field `declarator`; a type and a name before the word `in`; the first
child that is a declaration.  What the header used does not occur among the
loop's parts again.
-/

namespace SymbolGraph.Reading

/-- The children that are none of the given ones, as expressions and
statements. -/
def nodesExcept (excluded : List Reading) (children : List Reading) : List Node :=
  nodes (children.filter fun c => !excluded.any fun x => x.head.coincides c.head)

/-- The children before the word `in` that make up a type and its declarators. -/
def inHeader (children : List Reading) : List Reading :=
  (children.takeWhile (·.type != "in")).filter fun c =>
    c.head.isSpecifier || c.type == "identifier" || c.head.isDeclarator

/-- The variables before the word `in`; without a type or without a declarator
they are those of an outer scope. -/
def inDeclaration? (excerpt : Excerpt) (children : List Reading) : Option Declaration :=
  let header := inHeader children
  let types := header.filter (·.head.isSpecifier)
  let declarators := header.filter fun c => c.type == "identifier" || c.head.isDeclarator
  if types.isEmpty || declarators.isEmpty then none
  else some ⟨excerpt, [], types.flatMap (·.specifiers), declarators.map bareDeclarator⟩

/-- The declaration in the header of a loop, and the children that it uses. -/
def loopHeader (excerpt : Excerpt) (children : List Reading) : Option Declaration × List Reading :=
  let start := (field? "initializer" children).filter (·.type == "declaration")
  match start with
  | some r => (some (declaration r.excerpt r.children), [r])
  | none =>
      let marked := filling "declarator" children
      if !marked.isEmpty then
        (some ⟨excerpt, [], specifiersIn children, marked.map bareDeclarator⟩,
          filling "type" children ++ marked)
      else if hasType "in" children then
        match inDeclaration? excerpt children with
        | some d => (some d, inHeader children)
        | none => (none, [])
      else match (named children).find? (·.type == "declaration") with
        | some r => (some (declaration r.excerpt r.children), [r])
        | none => (none, [])

def loop (excerpt : Excerpt) (children : List Reading) : Node :=
  let body := field? "body" children
  let (header, used) := loopHeader excerpt children
  .forStatement excerpt header (nodesExcept (body.toList ++ used) children) (body.bind (·.node))

/-- The last child that is a block. -/
def lastBlock? (children : List Reading) : Option Reading :=
  ((named children).filter (·.type == "compound_statement")).getLast?

/-- What a catch clause binds: its declarator may fill no field. -/
def catchParameter (r : Reading) : Parameter :=
  let declarator := (field? "declarator" r.children).or
    ((named r.children).find? fun c => c.head.isDeclarator || c.type == "identifier")
  ⟨r.excerpt, specifiersIn r.children, declarator.map (·.declarator)⟩

def catchClause (excerpt : Excerpt) (children : List Reading) : Node :=
  let parameter := (named children).find? fun c =>
    c.type != "compound_statement" && (Text.has c.type "parameter" || c.type == "type_name")
  .catchClause excerpt (parameter.map catchParameter) ((lastBlock? children).bind (·.node))

/-- A block literal; of several parameter lists the last one counts. -/
def block (excerpt : Excerpt) (children : List Reading) : Node :=
  let parameters := ((named children).filter (·.type == "parameter_list")).getLast?
  .blockExpression excerpt (parametersOf parameters) ((lastBlock? children).bind (·.node))

def memberAccess (excerpt : Excerpt) (children : List Reading) : Node :=
  .memberAccess excerpt (fieldNode? "argument" children) (fieldExcerpt? "field" children)
    (hasType "->" children)

def cast (excerpt : Excerpt) (children : List Reading) : Node :=
  .castExpression excerpt ((field? "type" children).map typeName) (fieldNode? "value" children)

def function (excerpt : Excerpt) (children : List Reading) : Node :=
  .functionDefinition excerpt (specifiersIn children)
    ((field? "declarator" children).map (·.declarator)) (fieldNode? "body" children)

end SymbolGraph.Reading
