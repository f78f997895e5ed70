import SymbolGraph.Cst.Reading.Declarator

/-!
# `Cst.Reading.Container` — interfaces, implementations and protocols

The header of a container is read by position: the first name is its own, a
name in parentheses is a category, the first name after a colon is the
superclass.  The header ends with the instance variables or with the first
other named child, which is a member.
-/

namespace SymbolGraph.Reading

/-! ## Instance variables -/

/-- Where a visibility stands for the variables after it. -/
def isVisibility (r : Reading) : Bool :=
  visibilityMarks.contains r.type || Text.has r.type "visibility"

/-- The visibility that a node writes. -/
def visibilityText (r : Reading) : String := Text.trim Text.isBlank r.excerpt.text

/-- A line of instance variables: its specifiers and names may lie one level
deeper. -/
def ivar (visibility : Option String) (r : Reading) : Ivar :=
  let target :=
    if (filling "type" r.children).isEmpty then
      match (named r.children).filter (·.head.isIvar) with
      | [inner] => inner
      | _ => r
    else r
  ⟨r.excerpt, specifiersIn target.children, declaredNames target.children, visibility⟩

/-- The instance variables among some children, with the visibility in force. -/
def ivars (visibility : Option String) : List Reading → List Ivar
  | [] => []
  | r :: rest =>
      if isVisibility r then ivars (some (visibilityText r)) rest
      else if !r.head.isIvar then ivars visibility rest
      else match (named r.children).find? (·.type == "visibility_specification") with
        | none => ivar visibility r :: ivars visibility rest
        | some mark =>
            let visibility := some (visibilityText mark)
            if (named r.children).length == 1 then ivars visibility rest
            else ivar visibility r :: ivars visibility rest

/-! ## Headers -/

/-- The parts of a container, and where in its header the reader stands. -/
structure Container where
  name : Option Excerpt := none
  superclass : Option Excerpt := none
  category : Option Excerpt := none
  hasParens : Bool := false
  protocols : List Excerpt := []
  ivars : List Ivar := []
  members : List Node := []
  inParens : Bool := false
  afterColon : Bool := false
  inHeader : Bool := true

/-- A name in the header. -/
def Container.addName (s : Container) (name : Option Excerpt) : Container :=
  if s.name.isNone then { s with name }
  else if s.inParens then { s with category := name }
  else if s.afterColon && s.superclass.isNone then
    { s with superclass := name, afterColon := false }
  else s

/-- One child of a container. -/
def Container.step (s : Container) (r : Reading) : Container :=
  if s.inHeader && r.type == "(" then { s with inParens := true, hasParens := true }
  else if s.inHeader && r.type == ")" then { s with inParens := false }
  else if s.inHeader && r.type == ":" then { s with afterColon := true }
  else if s.inHeader && (r.head.isName || r.type == "superclass_reference") then
    s.addName r.names.head?
  else if r.head.isProtocolList then { s with protocols := s.protocols ++ r.names }
  else if r.type == "instance_variables" then
    { s with ivars := Reading.ivars none r.children, inHeader := false }
  else if r.head.named then { s with inHeader := false, members := s.members ++ r.node.toList }
  else s

/-- The parts of a container. -/
def container (children : List Reading) : Container := children.foldl Container.step {}

/-- An interface; parentheses in its header make it one of a category. -/
def interface (excerpt : Excerpt) (children : List Reading) : Node :=
  let s := container children
  if s.hasParens then .categoryInterface excerpt s.name s.category s.protocols s.ivars s.members
  else .classInterface excerpt s.name s.superclass s.protocols s.ivars s.members

def implementation (excerpt : Excerpt) (children : List Reading) : Node :=
  let s := container children
  .classImplementation excerpt s.name s.superclass s.category s.ivars s.members

/-- Names that are declared ahead of their definition. -/
def forward (excerpt : Excerpt) (names : List Excerpt) (children : List Reading) : Node :=
  .forwardDeclaration excerpt names (hasType "@protocol" children)

/-- A protocol, or, if it ends with a semicolon in place of a body, its name
declared ahead. -/
def protocol (excerpt : Excerpt) (names : List Excerpt) (children : List Reading) : Node :=
  if hasType ";" children && !hasType "@end" children then forward excerpt names children
  else
    let s := container children
    .protocolDeclaration excerpt s.name s.protocols s.members

/-- A property: its specifiers and names lie in the last child that declares
variables, if there is one. -/
def property (excerpt : Excerpt) (children : List Reading) : Node :=
  let isAttribute := fun (c : Reading) => Text.has c.type "attribute"
  let attributes := ((named children).filter isAttribute).flatMap fun c =>
    (named c.children).map (·.excerpt.text)
  let target :=
    match ((named children).filter fun c => !isAttribute c && c.head.isIvar).getLast? with
    | some inner => inner.children
    | none => children
  .propertyDeclaration excerpt attributes (specifiersIn target) (declaredNames target)

end SymbolGraph.Reading
