import SymbolGraph.Entity
import SymbolGraph.Tree.Basic

/-!
# `Action` — a tree as a sequence of small steps

Walking a tree means: open and close scopes, write tables, define, refer,
resolve a name, follow an inclusion.  `Node.actions` lays these steps out in
document order.  It needs no state: in which class and in which method a
construct stands is known from the constructs around it, and so is the type
that its specifiers name.  What DOES depend on the run (which variable a name
means, which class a receiver has, whether a method was declared) is left
to the step that performs the action.
-/

namespace SymbolGraph

/-- The class and the method or function around a construct. -/
structure Context where
  className : Option String := none
  methodName : Option String := none
  deriving Repr, DecidableEq, Inhabited

namespace Context

/-- The key of a name declared here, outside any block. -/
def key (c : Context) (name : String) : Key := Key.of [c.className, c.methodName, some name]

end Context

/-- Why a construct is left out. -/
inductive SkipReason where
  | unnamedInterface
  | unnamedCategoryClass
  | unnamedImplementation
  | unnamedProtocol
  | methodDeclarationOutside
  | methodDefinitionOutside
  | propertyOutside
  | unnamedFunction
  deriving Repr, DecidableEq

def SkipReason.message : SkipReason → String
  | .unnamedInterface => "class interface without a name"
  | .unnamedCategoryClass => "category without a class name"
  | .unnamedImplementation => "class implementation without a name"
  | .unnamedProtocol => "protocol without a name"
  | .methodDeclarationOutside => "method declaration outside a class"
  | .methodDefinitionOutside => "method definition outside a class implementation"
  | .propertyOutside => "property outside a class"
  | .unnamedFunction => "function definition without a name"

/-- The construct that each reason belongs to. -/
def SkipReason.construct : SkipReason → String
  | .unnamedInterface => "class_interface"
  | .unnamedCategoryClass => "category_interface"
  | .unnamedImplementation => "class_implementation"
  | .unnamedProtocol => "protocol_declaration"
  | .methodDeclarationOutside => "method_declaration"
  | .methodDefinitionOutside => "method_definition"
  | .propertyOutside => "property_declaration"
  | .unnamedFunction => "function_definition"

/-- One step of a walk. -/
inductive Action where
  /-- Opens the scope of a class. -/
  | openClass
  /-- Opens a block: a scope with a number of its own. -/
  | openBlock
  | closeScope
  /-- Opens the scope of a method or function, with no parameters and no blocks
  so far. -/
  | openRoutine
  | closeRoutine
  | registerClass (name : String)
  | addType (name : String)
  | addFunction (name : String)
  | declareMethod (path : String)
  | setGlobal (name : String) (type : Option String)
  | setMember (className name : String) (type : Option String)
  | setParameter (name : String) (type : Option String)
  | define (ident owner : Excerpt) (kind : Kind) (key : Key) (name : String)
      (modifiers : List String)
  | refer (occurrence : Excerpt) (key : Key)
  /-- Declares a variable in the innermost scope, under a key with the number of
  the current block. -/
  | declareLocal (context : Context) (ident owner : Excerpt) (kind : Kind) (type : Option String)
  /-- A method's body: a reference if the method was declared, else a definition. -/
  | implement (anchor owner : Excerpt) (key : Key) (name : String)
  /-- A name that is read, to be resolved. -/
  | read (context : Context) (occurrence : Excerpt)
  /-- A member of whatever class the receiver has. -/
  | access (context : Context) (receiver : String) (member : Excerpt)
  /-- A message to the first of the receivers whose class can be told. -/
  | send (context : Context) (receivers : List String) (anchor : Excerpt) (selector : String)
  | inclusion (path : String)
  | skip (reason : SkipReason) (start : Int)
  deriving Repr, DecidableEq

/-! ## What a tree says by itself -/

/-- Keywords of types that are reported as references to themselves. -/
def predefinedTypes : List String :=
  ["id", "void", "char", "short", "int", "long", "float", "double", "signed", "unsigned"]

/-- Specifiers that name no type. -/
def reservedSpecifiers : List String := ["inline", "static"]

/-- The type that a specifier names. -/
def Specifier.type? : Specifier → Option String
  | .enum _ enumeration _ => enumeration.bind fun e => e.name.map (·.text)
  | .named _ name _ | .struct _ name _ =>
      name.bind fun n => if n.text ∈ reservedSpecifiers then none else some n.text
  | .primitive e _ => if e.text ∈ predefinedTypes then some e.text else none
  | .other .. => none

/-- The type that a list of specifiers names: the last one named. -/
def Specifier.lastType? (specifiers : List Specifier) : Option String :=
  (specifiers.filterMap Specifier.type?).getLast?

namespace Selector

/-- The selector's name: each keyword with a colon after it. -/
def name (s : Selector) : String :=
  match s.unary, s.keywords with
  | some u, _ => u.text ++ ":"
  | none, [] => s.excerpt.text ++ ":"
  | none, ks => String.join (ks.map fun k => (k.keyword.map (·.text)).getD "" ++ ":")

/-- Where an occurrence of the selector is reported. -/
def anchor (s : Selector) : Excerpt :=
  match s.unary, s.keywords with
  | some u, _ => u
  | none, ⟨_, some keyword, _, _⟩ :: _ => keyword
  | none, _ => s.excerpt

end Selector

namespace MessageSelector

/-- The selector's name: each keyword with a colon after it. -/
def name (s : MessageSelector) : String :=
  match s.unary, s.keywords with
  | some u, _ => u.text ++ ":"
  | none, [] => s.excerpt.text ++ ":"
  | none, ks => String.join (ks.map fun k => (k.keyword.map (·.text)).getD "" ++ ":")

/-- Where an occurrence of the selector is reported. -/
def anchor (s : MessageSelector) : Excerpt :=
  match s.unary, s.keywords with
  | some u, _ => u
  | none, ⟨_, some keyword, _⟩ :: _ => keyword
  | none, _ => s.excerpt

end MessageSelector

namespace Node

def excerpt : Node → Excerpt
  | .unit e .. | .inclusion e .. | .classInterface e .. | .categoryInterface e ..
  | .classImplementation e .. | .protocolDeclaration e .. | .forwardDeclaration e ..
  | .methodDeclaration e .. | .methodDefinition e .. | .propertyDeclaration e ..
  | .functionDefinition e .. | .compoundStatement e .. | .forStatement e .. | .catchClause e ..
  | .blockExpression e .. | .identifier e .. | .memberAccess e .. | .messageExpression e ..
  | .castExpression e .. | .generic e .. => e
  | .declaration d => d.excerpt

/-- The texts of the receivers below a construct: that of the message it is or
wraps alone, then that of the message this receiver is or wraps, and so on. -/
def receiversBelow : Node → List String
  | .messageExpression _ (some receiver) _ => receiver.excerpt.text :: receiversBelow receiver
  | .generic _ _ [child] => receiversBelow child
  | _ => []

/-- The texts by which the class of a receiver may be told, outermost first. -/
def receivers (n : Node) : List String := n.excerpt.text :: n.receiversBelow

end Node

/-! ## The steps of each construct -/

namespace Action

/-- A reference to a name that stands on its own. -/
def referName (e : Excerpt) : Action := .refer e (.global e.text)

/-- A definition whose name is the text of its identifier. -/
def defineName (ident owner : Excerpt) (kind : Kind) (key : Key) : Action :=
  .define ident owner kind key ident.text []

/-- A variable: local in a method, a member in a class, else global. -/
def declareVariable (c : Context) (ident owner : Excerpt) (type : Option String)
    (kind : Option Kind) : List Action :=
  match c.methodName, c.className with
  | some _, _ => [.declareLocal c ident owner (kind.getD .variable) type]
  | none, some className =>
      [.setMember className ident.text type,
        defineName ident owner (kind.getD .field) (.member className ident.text)]
  | none, none =>
      [.setGlobal ident.text type,
        defineName ident owner (kind.getD .variable) (.global ident.text)]

/-- The members that a line of instance variables declares. -/
def declareIvar (className : String) (ivar : Ivar) : List Action :=
  let modifiers := match ivar.visibility with
    | none | some "" => []
    | some v => [String.ofList (v.toList.dropWhile (· == '@'))]
  ivar.names.flatMap fun name =>
    [.setMember className name.text (Specifier.lastType? ivar.specifiers),
      .define name ivar.excerpt .field (.member className name.text) name.text modifiers]

/-- A local variable, if its declarator has a name. -/
def declareBound (c : Context) (declarator : Option Declarator) (owner : Excerpt)
    (type : Option String) : List Action :=
  match declarator with
  | some ⟨_, some ident, _, _⟩ => [.declareLocal c ident owner .variable type]
  | _ => []

/-- What a declarator of a declaration does, its parameters' specifiers and its
value apart. -/
def declareOne (c : Context) (d : Declaration) (ident : Excerpt) (declarator : Declarator) :
    List Action :=
  let type := Specifier.lastType? d.specifiers
  if "typedef" ∈ d.storage then
    [.addType ident.text, defineName ident d.excerpt .classType (.global ident.text)]
  else if declarator.nested then [.read c ident]
  else if declarator.parameters.isSome then [.addFunction ident.text, referName ident]
  else if "extern" ∈ d.storage then [.setGlobal ident.text type, referName ident]
  else declareVariable c ident d.excerpt type none

/-- An identifier that is read: `super` names nothing, and `self` the member of
that name, if there is a class. -/
def readIdentifier (c : Context) (ident : Excerpt) : List Action :=
  if ident.text = "super" then []
  else if ident.text = "self" then
    c.className.toList.map fun className => .refer ident (.member className "self")
  else [.read c ident]

/-- The specifiers of a prototype's parameters belong to the declaration; those
of any other declarator do not. -/
def isPrototype (d : Declaration) (declarator : Declarator) : Bool :=
  !(d.storage.contains "typedef") && !declarator.nested

end Action

open SymbolGraph.Action

mutual

/-- The steps of a construct. -/
def Node.actions (c : Context) : Node → List Action
  | .unit _ items => Node.actionsOfAll c items
  | .inclusion _ path _ _ => if path = "" then [] else [.inclusion path]
  | .classInterface e none .. => [.skip .unnamedInterface e.start]
  | .classInterface e (some name) superclass protocols ivars members =>
      defineName name e .classType (.global name.text) :: .registerClass name.text ::
        superclass.toList.map referName ++ protocols.map referName ++
        .openClass :: Ivar.actionsOfAll { c with className := name.text } name.text ivars ++
        Node.actionsOfAll { c with className := name.text } members ++ [.closeScope]
  | .categoryInterface e none .. => [.skip .unnamedCategoryClass e.start]
  | .categoryInterface e (some name) category protocols ivars members =>
      referName name ::
        category.toList.flatMap (fun k =>
          [defineName k e .category (.global k.text), .addType k.text]) ++
        .registerClass name.text :: protocols.map referName ++
        .openClass :: Ivar.actionsOfAll { c with className := name.text } name.text ivars ++
        Node.actionsOfAll { c with className := name.text } members ++ [.closeScope]
  | .classImplementation e none .. => [.skip .unnamedImplementation e.start]
  | .classImplementation _ (some name) superclass category ivars members =>
      referName name :: .registerClass name.text ::
        superclass.toList.map referName ++ category.toList.map referName ++
        .openClass :: Ivar.actionsOfAll { c with className := name.text } name.text ivars ++
        Node.actionsOfAll { c with className := name.text } members ++ [.closeScope]
  | .protocolDeclaration e none .. => [.skip .unnamedProtocol e.start]
  | .protocolDeclaration e (some name) protocols members =>
      defineName name e .protocol (.global name.text) :: .registerClass name.text ::
        protocols.map referName ++
        .openClass :: Node.actionsOfAll { c with className := name.text } members ++
        [.closeScope]
  | .forwardDeclaration _ names _ => names.map referName
  | .methodDeclaration e _ returnType selector =>
      match c.className, selector with
      | some className, some ⟨excerpt, unary, keywords⟩ =>
          let s : Selector := ⟨excerpt, unary, keywords⟩
          let key := Key.member className s.name
          .declareMethod key.path :: .define s.anchor e .method key s.name [] ::
            TypeName.actionsOfOption c returnType ++
            KeywordDeclarator.typeActions c keywords
      | _, _ => [.skip .methodDeclarationOutside e.start]
  | .methodDefinition e _ returnType selector body =>
      match c.className, selector with
      | some className, some ⟨excerpt, unary, keywords⟩ =>
          let s : Selector := ⟨excerpt, unary, keywords⟩
          let key := Key.member className s.name
          let inner := { c with methodName := s.name }
          .implement s.anchor e key s.name :: .addFunction key.path ::
            .openRoutine :: TypeName.actionsOfOption inner returnType ++
            KeywordDeclarator.actionsOfAll inner key keywords ++
            Node.actionsOfOption inner body ++ [.closeRoutine]
      | _, _ => [.skip .methodDefinitionOutside e.start]
  | .propertyDeclaration e _ specifiers names =>
      match c.className with
      | none => [.skip .propertyOutside e.start]
      | some className =>
          Specifier.actionsOfAll c specifiers ++
            names.flatMap fun name =>
              [.setMember className name.text (Specifier.lastType? specifiers),
                defineName name e .field (.member className name.text)]
  | .declaration d => Declaration.actions c d
  | .functionDefinition e specifiers declarator body =>
      match declarator with
      | some ⟨_, some name, _, parameters⟩ =>
          let inner := { c with methodName := name.text }
          defineName name e .function (.global name.text) :: .addFunction name.text ::
            Specifier.actionsOfAll c specifiers ++
            .openRoutine :: Parameter.actionsOfOption inner parameters ++
            Node.actionsOfOption inner body ++ [.closeRoutine]
      | _ => [.skip .unnamedFunction e.start]
  | .compoundStatement _ items => .openBlock :: Node.actionsOfAll c items ++ [.closeScope]
  | .forStatement _ header parts body =>
      .openBlock :: Declaration.localActionsOfOption c header ++ Node.actionsOfAll c parts ++
        Node.actionsOfOption c body ++ [.closeScope]
  | .catchClause _ parameter body =>
      .openBlock :: Parameter.localActionsOfOption c parameter ++ Node.actionsOfOption c body ++
        [.closeScope]
  | .blockExpression _ parameters body =>
      .openBlock :: Parameter.localActionsOfAll c parameters ++ Node.actionsOfOption c body ++
        [.closeScope]
  | .identifier e name => readIdentifier c (name.getD e)
  | .memberAccess _ receiver member _ =>
      match receiver with
      | some (.identifier e name) =>
          if e.text = "self" ∨ e.text = "super" then
            match c.className, member with
            | some className, some m =>
                if className = "" then [] else [.refer m (.member className m.text)]
            | _, _ => []
          else
            readIdentifier c (name.getD e) ++
              member.toList.map fun m => .access c e.text m
      | other => Node.actionsOfOption c other
  | .messageExpression _ receiver selector =>
      (match receiver, selector with
        | some r, some s => [.send c r.receivers s.anchor s.name]
        | _, _ => []) ++
        Node.actionsOfOption c receiver ++ MessageSelector.actionsOfOption c selector
  | .castExpression _ typeName operand =>
      TypeName.actionsOfOption c typeName ++ Node.actionsOfOption c operand
  | .generic _ _ children => Node.actionsOfAll c children

def Node.actionsOfAll (c : Context) : List Node → List Action
  | [] => []
  | n :: rest => Node.actions c n ++ Node.actionsOfAll c rest

def Node.actionsOfOption (c : Context) : Option Node → List Action
  | none => []
  | some n => Node.actions c n

/-- The references and constants of a specifier. -/
def Specifier.actions (c : Context) : Specifier → List Action
  | .enum _ enumeration protocols =>
      protocols.map referName ++ Enumeration.actionsOfOption c enumeration
  | .named _ name protocols | .struct _ name protocols =>
      protocols.map referName ++ name.toList.flatMap fun n =>
        if n.text ∈ reservedSpecifiers then [] else [referName n]
  | .primitive e protocols =>
      protocols.map referName ++ if e.text ∈ predefinedTypes then [referName e] else []
  | .other _ protocols => protocols.map referName

def Specifier.actionsOfAll (c : Context) : List Specifier → List Action
  | [] => []
  | s :: rest => Specifier.actions c s ++ Specifier.actionsOfAll c rest

/-- An enumeration that lists constants defines its name, any other refers to
it. -/
def Enumeration.actions (c : Context) : Enumeration → List Action
  | ⟨e, name, underlying, constants⟩ =>
      TypeName.actionsOfOption c underlying ++
        (match name, constants with
          | none, _ => []
          | some n, [] => [referName n]
          | some n, _ :: _ => [defineName n e .enum (.global n.text), .addType n.text]) ++
        Enumerator.actionsOfAll c
          (match name with
            | none | some ⟨"", _, _⟩ => "int"
            | some n => n.text) constants

def Enumeration.actionsOfOption (c : Context) : Option Enumeration → List Action
  | none => []
  | some e => Enumeration.actions c e

/-- Constants are variables of the enumeration's type; one without a name is
left out together with its value. -/
def Enumerator.actionsOfAll (c : Context) (type : String) : List Enumerator → List Action
  | [] => []
  | ⟨_, none, _⟩ :: rest => Enumerator.actionsOfAll c type rest
  | ⟨e, some name, value⟩ :: rest =>
      declareVariable c name e (some type) (some .enumConstant) ++
        Node.actionsOfOption c value ++ Enumerator.actionsOfAll c type rest

def TypeName.actionsOfOption (c : Context) : Option TypeName → List Action
  | none => []
  | some ⟨_, specifiers⟩ => Specifier.actionsOfAll c specifiers

/-- A declaration: its specifiers, then each declarator with its value. -/
def Declaration.actions (c : Context) : Declaration → List Action
  | ⟨e, storage, specifiers, declarators⟩ =>
      Specifier.actionsOfAll c specifiers ++
        InitDeclarator.actionsOfAll c ⟨e, storage, specifiers, []⟩ declarators

def InitDeclarator.actionsOfAll (c : Context) (d : Declaration) : List InitDeclarator → List Action
  | [] => []
  | ⟨_, declarator, value⟩ :: rest =>
      (match declarator with
        | some ⟨e, some ident, nested, parameters⟩ =>
            declareOne c d ident ⟨e, some ident, nested, parameters⟩ ++
              (if isPrototype d ⟨e, some ident, nested, parameters⟩ then
                Parameter.specifierActionsOfOption c parameters
              else [])
        | _ => []) ++
        Node.actionsOfOption c value ++ InitDeclarator.actionsOfAll c d rest

/-- The header of a loop: its variables are local, whatever is around it. -/
def Declaration.localActionsOfOption (c : Context) : Option Declaration → List Action
  | none => []
  | some ⟨e, _, specifiers, declarators⟩ =>
      Specifier.actionsOfAll c specifiers ++
        InitDeclarator.localActionsOfAll c e (Specifier.lastType? specifiers) declarators

def InitDeclarator.localActionsOfAll (c : Context) (owner : Excerpt) (type : Option String) :
    List InitDeclarator → List Action
  | [] => []
  | ⟨_, declarator, value⟩ :: rest =>
      declareBound c declarator owner type ++ Node.actionsOfOption c value ++
        InitDeclarator.localActionsOfAll c owner type rest

/-- A parameter of a function. -/
def Parameter.actionsOfAll (c : Context) : List Parameter → List Action
  | [] => []
  | ⟨e, specifiers, declarator⟩ :: rest =>
      Specifier.actionsOfAll c specifiers ++
        (match declarator with
          | some ⟨_, some name, _, _⟩ =>
              [.setParameter name.text (Specifier.lastType? specifiers),
                defineName name e .parameter (c.key name.text)]
          | _ => []) ++
        Parameter.actionsOfAll c rest

def Parameter.actionsOfOption (c : Context) : Option (List Parameter) → List Action
  | none => []
  | some parameters => Parameter.actionsOfAll c parameters

/-- A parameter of a block or of a catch clause is a local variable. -/
def Parameter.localActions (c : Context) : Parameter → List Action
  | ⟨e, specifiers, declarator⟩ =>
      Specifier.actionsOfAll c specifiers ++
        declareBound c declarator e (Specifier.lastType? specifiers)

def Parameter.localActionsOfAll (c : Context) : List Parameter → List Action
  | [] => []
  | p :: rest => Parameter.localActions c p ++ Parameter.localActionsOfAll c rest

def Parameter.localActionsOfOption (c : Context) : Option Parameter → List Action
  | none => []
  | some p => Parameter.localActions c p

def Parameter.specifierActionsOfAll (c : Context) : List Parameter → List Action
  | [] => []
  | ⟨_, specifiers, _⟩ :: rest =>
      Specifier.actionsOfAll c specifiers ++ Parameter.specifierActionsOfAll c rest

def Parameter.specifierActionsOfOption (c : Context) : Option (List Parameter) → List Action
  | none => []
  | some parameters => Parameter.specifierActionsOfAll c parameters

def Ivar.actionsOfAll (c : Context) (className : String) : List Ivar → List Action
  | [] => []
  | ⟨e, specifiers, names, visibility⟩ :: rest =>
      Specifier.actionsOfAll c specifiers ++
        declareIvar className ⟨e, specifiers, names, visibility⟩ ++
        Ivar.actionsOfAll c className rest

/-- The types in the selector of a method that is only declared. -/
def KeywordDeclarator.typeActions (c : Context) : List KeywordDeclarator → List Action
  | [] => []
  | ⟨_, _, typeName, _⟩ :: rest =>
      TypeName.actionsOfOption c typeName ++ KeywordDeclarator.typeActions c rest

/-- The parameters in the selector of a method with a body; one without a type
is an object. -/
def KeywordDeclarator.actionsOfAll (c : Context) (method : Key) :
    List KeywordDeclarator → List Action
  | [] => []
  | ⟨e, _, typeName, name⟩ :: rest =>
      TypeName.actionsOfOption c typeName ++
        (match name with
          | none => []
          | some n =>
              [.setParameter n.text (match typeName with
                  | none => some "id"
                  | some t => Specifier.lastType? t.specifiers),
                defineName n e .parameter (method.child n.text)]) ++
        KeywordDeclarator.actionsOfAll c method rest

def MessageSelector.actionsOfOption (c : Context) : Option MessageSelector → List Action
  | none => []
  | some ⟨_, _, keywords⟩ => KeywordArgument.actionsOfAll c keywords

def KeywordArgument.actionsOfAll (c : Context) : List KeywordArgument → List Action
  | [] => []
  | ⟨_, _, argument⟩ :: rest =>
      Node.actionsOfOption c argument ++ KeywordArgument.actionsOfAll c rest

end

end SymbolGraph
