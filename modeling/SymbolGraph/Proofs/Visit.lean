import SymbolGraph.Proofs.Frames

/-!
# `Proofs.Visit` — a tree walked by handlers that may end early

`Node.actions` lays the steps of a tree out beforehand, each with its context, and
`Run.walk` performs them one after another.  Here a tree is walked the other way: one
handler for each construct works on a state that holds the class and the method it is in,
opens a scope and closes it AGAIN HOWEVER its body ends, and ends early itself where it
leaves a construct out, where a scope cannot be closed and where a file that is included
cannot be read.  A skip goes no further than the visit of the construct that is left out.

    frame, inClass, inRoutine     open, body, close on every way out
    raise, rescue                 a skip, and where it ends
    steps, follow                 what `Run.walk` does with one step

That both ways agree is shown in `Proofs.Discipline`.
-/

namespace SymbolGraph

open SymbolGraph.Action

/-- What a visit works on. -/
structure Visitor where
  context : Context := {}
  walker : Walker := {}
  counts : Counts := {}
  run : Run := {}

/-- What stays the same during the visits of a file. -/
structure Host where
  /-- Follows an inclusion. -/
  enter : String → Run → Outcome (Option FileResult)
  pass : Pass
  file : String

/-- Why a visit ends early. -/
inductive Stop where
  | skip (reason : SkipReason) (start : Int)
  | scope (error : ScopeError)
  | read (error : ReadError)
  deriving Repr, DecidableEq

/-- A visit ends early or not, and leaves a state behind in both cases. -/
def Visit := Visitor → Option Stop × Visitor

namespace Visit

def done : Visit := fun v => (none, v)

def raise (stop : Stop) : Visit := fun v => (some stop, v)

def assign (f : Visitor → Visitor) : Visit := fun v => (none, f v)

/-- What is done depends on the class and the method around. -/
def asking (f : Context → Visit) : Visit := fun v => f v.context v

/-- What is done in a class; outside any, the visit ends. -/
def withClass (stop : Stop) (f : String → Visit) : Visit :=
  asking fun c =>
    match c.className with
    | some className => f className
    | none => raise stop

/-- The second visit begins where the first one ends, unless that ends early. -/
def andThen (p q : Visit) : Visit := fun v =>
  match p v with
  | (none, v) => q v
  | (some stop, v) => (some stop, v)

/-- The second visit is made however the first one ends. -/
def ensuring (p last : Visit) : Visit := fun v =>
  match p v with
  | (stop, v) =>
      match last v with
      | (none, v) => (stop, v)
      | (some failure, v) => (some failure, v)

/-! ## Scopes -/

def push (counted : Bool) : Visit :=
  assign fun v => { v with
    walker.scopes := v.walker.scopes.push
    walker.block := if counted then v.walker.block + 1 else v.walker.block }

def pop : Visit := fun v =>
  match v.walker.scopes.pop? with
  | some scopes => (none, { v with walker.scopes := scopes })
  | none => (some (.scope .fileScope), v)

/-- A scope, which may count as a block. -/
def frame (counted : Bool) (body : Visit) : Visit := (push counted).andThen (body.ensuring pop)

/-- A scope in another class; the class around is put back. -/
def inClass (name : String) (body : Visit) : Visit := fun outer =>
  ((assign fun v => { v with context.className := some name }).andThen
    ((frame false body).ensuring
      (assign fun v => { v with context.className := outer.context.className }))) outer

/-- A scope in another method, which has its own parameters and counts its own blocks; the
method around is put back, its parameters are not. -/
def inRoutine (name : String) (body : Visit) : Visit := fun outer =>
  ((assign fun v => { v with
      context.methodName := some name
      walker.block := 0
      walker.parameters := [] }).andThen
    ((frame false body).ensuring
      (assign fun v => { v with
        context.methodName := outer.context.methodName
        walker.parameters := [] }))) outer

/-! ## Steps -/

variable (h : Host)

/-- One step that is no inclusion. -/
def step (a : Action) : Visit :=
  assign fun v => { v with
    walker := a.moved v.walker
    counts := (Act.emissions ⟨h.file, v.walker, a⟩ v.run.symbols).foldl Counts.add v.counts
    run := v.run.act h.pass ⟨h.file, v.walker, a⟩ }

def steps : List Action → Visit
  | [] => done
  | a :: rest => (step h a).andThen (steps rest)

/-- Steps that depend on the class and the method around. -/
def here (f : Context → List Action) : Visit := asking fun c => steps h (f c)

/-- An inclusion. -/
def follow (path : String) : Visit := fun v =>
  match h.enter path v.run with
  | .done run _ => (none, { v with run })
  | .halted run e => (some (.read e), { v with run })

/-- A skip is noted, and the visit goes on behind the construct. -/
def rescue (p : Visit) : Visit := fun v =>
  match p v with
  | (some (.skip reason start), v) => step h (.skip reason start) v
  | (stop, v) => (stop, v)

end Visit

open Visit

mutual

/-- What the handler of a construct does. -/
def Node.handle (h : Host) : Node → Visit
  | .unit _ items => Node.visitAll h items
  | .inclusion _ path _ _ => if path = "" then done else follow h path
  | .classInterface e none .. => raise (.skip .unnamedInterface e.start)
  | .classInterface e (some name) superclass protocols ivars members =>
      (steps h (defineName name e .classType (.global name.text) :: .registerClass name.text ::
        (superclass.toList.map referName ++ protocols.map referName))).andThen
        (inClass name.text ((Ivar.declareAll h name.text ivars).andThen (Node.visitAll h members)))
  | .categoryInterface e none .. => raise (.skip .unnamedCategoryClass e.start)
  | .categoryInterface e (some name) category protocols ivars members =>
      (steps h (referName name :: (category.toList.flatMap (fun k =>
        [defineName k e .category (.global k.text), .addType k.text]) ++
          .registerClass name.text :: protocols.map referName))).andThen
        (inClass name.text ((Ivar.declareAll h name.text ivars).andThen (Node.visitAll h members)))
  | .classImplementation e none .. => raise (.skip .unnamedImplementation e.start)
  | .classImplementation _ (some name) superclass category ivars members =>
      (steps h (referName name :: .registerClass name.text ::
        (superclass.toList.map referName ++ category.toList.map referName))).andThen
        (inClass name.text ((Ivar.declareAll h name.text ivars).andThen (Node.visitAll h members)))
  | .protocolDeclaration e none .. => raise (.skip .unnamedProtocol e.start)
  | .protocolDeclaration e (some name) protocols members =>
      (steps h (defineName name e .protocol (.global name.text) :: .registerClass name.text ::
        protocols.map referName)).andThen (inClass name.text (Node.visitAll h members))
  | .forwardDeclaration _ names _ => steps h (names.map referName)
  | .methodDeclaration e _ _ none => raise (.skip .methodDeclarationOutside e.start)
  | .methodDeclaration e _ returnType (some ⟨excerpt, unary, keywords⟩) =>
      withClass (.skip .methodDeclarationOutside e.start) fun className =>
        let s : Selector := ⟨excerpt, unary, keywords⟩
        let key := Key.member className s.name
        (steps h [.declareMethod key.path, .define s.anchor e .method key s.name []]).andThen
          ((TypeName.resolveOption h returnType).andThen (KeywordDeclarator.resolveAll h keywords))
  | .methodDefinition e _ _ none _ => raise (.skip .methodDefinitionOutside e.start)
  | .methodDefinition e _ returnType (some ⟨excerpt, unary, keywords⟩) body =>
      withClass (.skip .methodDefinitionOutside e.start) fun className =>
        let s : Selector := ⟨excerpt, unary, keywords⟩
        let key := Key.member className s.name
        (steps h [.implement s.anchor e key s.name, .addFunction key.path]).andThen
          (inRoutine s.name ((TypeName.resolveOption h returnType).andThen
            ((KeywordDeclarator.declareAll h key keywords).andThen (Node.visitOption h body))))
  | .propertyDeclaration e _ specifiers names =>
      withClass (.skip .propertyOutside e.start) fun className =>
        (Specifier.resolveAll h specifiers).andThen (steps h (names.flatMap fun name =>
          [.setMember className name.text (Specifier.lastType? specifiers),
            defineName name e .field (.member className name.text)]))
  | .declaration d => Declaration.handle h d
  | .functionDefinition e specifiers declarator body =>
      match declarator with
      | some ⟨_, some name, _, parameters⟩ =>
          (steps h [defineName name e .function (.global name.text),
            .addFunction name.text]).andThen
            ((Specifier.resolveAll h specifiers).andThen
              (inRoutine name.text ((Parameter.declareOption h parameters).andThen
                (Node.visitOption h body))))
      | _ => raise (.skip .unnamedFunction e.start)
  | .compoundStatement _ items => frame true (Node.visitAll h items)
  | .forStatement _ header parts body =>
      frame true ((Declaration.declareLocals h header).andThen
        ((Node.visitAll h parts).andThen (Node.visitOption h body)))
  | .catchClause _ parameter body =>
      frame true ((Parameter.declareLocalOption h parameter).andThen (Node.visitOption h body))
  | .blockExpression _ parameters body =>
      frame true ((Parameter.declareLocals h parameters).andThen (Node.visitOption h body))
  | .identifier e name => here h fun c => readIdentifier c (name.getD e)
  | .memberAccess _ receiver member _ =>
      match receiver with
      | some (.identifier e name) =>
          here h fun c =>
            if e.text = "self" ∨ e.text = "super" then
              match c.className, member with
              | some className, some m =>
                  if className = "" then [] else [.refer m (.member className m.text)]
              | _, _ => []
            else readIdentifier c (name.getD e) ++ member.toList.map fun m => .access c e.text m
      | other => Node.visitOption h other
  | .messageExpression _ receiver selector =>
      (here h fun c =>
        match receiver, selector with
        | some r, some s => [.send c r.receivers s.anchor s.name]
        | _, _ => []).andThen
        ((Node.visitOption h receiver).andThen (MessageSelector.visitOption h selector))
  | .castExpression _ typeName operand =>
      (TypeName.resolveOption h typeName).andThen (Node.visitOption h operand)
  | .generic _ _ children => Node.visitAll h children

def Node.visitAll (h : Host) : List Node → Visit
  | [] => done
  | n :: rest => (rescue h (Node.handle h n)).andThen (Node.visitAll h rest)

def Node.visitOption (h : Host) : Option Node → Visit
  | none => done
  | some n => rescue h (Node.handle h n)

def Specifier.resolve (h : Host) : Specifier → Visit
  | .enum _ enumeration protocols =>
      (steps h (protocols.map referName)).andThen (Enumeration.defineOption h enumeration)
  | .named _ name protocols | .struct _ name protocols =>
      steps h (protocols.map referName ++ name.toList.flatMap fun n =>
        if n.text ∈ reservedSpecifiers then [] else [referName n])
  | .primitive e protocols =>
      steps h (protocols.map referName ++ if e.text ∈ predefinedTypes then [referName e] else [])
  | .other _ protocols => steps h (protocols.map referName)

def Specifier.resolveAll (h : Host) : List Specifier → Visit
  | [] => done
  | s :: rest => (Specifier.resolve h s).andThen (Specifier.resolveAll h rest)

def Enumeration.define (h : Host) : Enumeration → Visit
  | ⟨e, name, underlying, constants⟩ =>
      (TypeName.resolveOption h underlying).andThen
        ((steps h (match name, constants with
          | none, _ => []
          | some n, [] => [referName n]
          | some n, _ :: _ => [defineName n e .enum (.global n.text), .addType n.text])).andThen
        (Enumerator.declareAll h (match name with
          | none | some ⟨"", _, _⟩ => "int"
          | some n => n.text) constants))

def Enumeration.defineOption (h : Host) : Option Enumeration → Visit
  | none => done
  | some e => Enumeration.define h e

def Enumerator.declareAll (h : Host) (type : String) : List Enumerator → Visit
  | [] => done
  | ⟨_, none, _⟩ :: rest => Enumerator.declareAll h type rest
  | ⟨e, some name, value⟩ :: rest =>
      (here h fun c => declareVariable c name e (some type) (some .enumConstant)).andThen
        ((Node.visitOption h value).andThen (Enumerator.declareAll h type rest))

def TypeName.resolveOption (h : Host) : Option TypeName → Visit
  | none => done
  | some ⟨_, specifiers⟩ => Specifier.resolveAll h specifiers

def Declaration.handle (h : Host) : Declaration → Visit
  | ⟨e, storage, specifiers, declarators⟩ =>
      (Specifier.resolveAll h specifiers).andThen
        (InitDeclarator.declareAll h ⟨e, storage, specifiers, []⟩ declarators)

def InitDeclarator.declareAll (h : Host) (d : Declaration) : List InitDeclarator → Visit
  | [] => done
  | ⟨_, declarator, value⟩ :: rest =>
      (match declarator with
        | some ⟨e, some ident, nested, parameters⟩ =>
            (here h fun c => declareOne c d ident ⟨e, some ident, nested, parameters⟩).andThen
              (if isPrototype d ⟨e, some ident, nested, parameters⟩ then
                Parameter.resolveOption h parameters
              else done)
        | _ => done).andThen
        ((Node.visitOption h value).andThen (InitDeclarator.declareAll h d rest))

def Declaration.declareLocals (h : Host) : Option Declaration → Visit
  | none => done
  | some ⟨e, _, specifiers, declarators⟩ =>
      (Specifier.resolveAll h specifiers).andThen
        (InitDeclarator.declareLocals h e (Specifier.lastType? specifiers) declarators)

def InitDeclarator.declareLocals (h : Host) (owner : Excerpt) (type : Option String) :
    List InitDeclarator → Visit
  | [] => done
  | ⟨_, declarator, value⟩ :: rest =>
      (here h fun c => declareBound c declarator owner type).andThen
        ((Node.visitOption h value).andThen (InitDeclarator.declareLocals h owner type rest))

def Parameter.declareAll (h : Host) : List Parameter → Visit
  | [] => done
  | ⟨e, specifiers, declarator⟩ :: rest =>
      (Specifier.resolveAll h specifiers).andThen
        ((here h fun c =>
          match declarator with
          | some ⟨_, some name, _, _⟩ =>
              [.setParameter name.text (Specifier.lastType? specifiers),
                defineName name e .parameter (c.key name.text)]
          | _ => []).andThen
        (Parameter.declareAll h rest))

def Parameter.declareOption (h : Host) : Option (List Parameter) → Visit
  | none => done
  | some parameters => Parameter.declareAll h parameters

def Parameter.declareLocal (h : Host) : Parameter → Visit
  | ⟨e, specifiers, declarator⟩ =>
      (Specifier.resolveAll h specifiers).andThen
        (here h fun c => declareBound c declarator e (Specifier.lastType? specifiers))

def Parameter.declareLocals (h : Host) : List Parameter → Visit
  | [] => done
  | p :: rest => (Parameter.declareLocal h p).andThen (Parameter.declareLocals h rest)

def Parameter.declareLocalOption (h : Host) : Option Parameter → Visit
  | none => done
  | some p => Parameter.declareLocal h p

def Parameter.resolveAll (h : Host) : List Parameter → Visit
  | [] => done
  | ⟨_, specifiers, _⟩ :: rest =>
      (Specifier.resolveAll h specifiers).andThen (Parameter.resolveAll h rest)

def Parameter.resolveOption (h : Host) : Option (List Parameter) → Visit
  | none => done
  | some parameters => Parameter.resolveAll h parameters

def Ivar.declareAll (h : Host) (className : String) : List Ivar → Visit
  | [] => done
  | ⟨e, specifiers, names, visibility⟩ :: rest =>
      (Specifier.resolveAll h specifiers).andThen
        ((steps h (declareIvar className ⟨e, specifiers, names, visibility⟩)).andThen
        (Ivar.declareAll h className rest))

def KeywordDeclarator.resolveAll (h : Host) : List KeywordDeclarator → Visit
  | [] => done
  | ⟨_, _, typeName, _⟩ :: rest =>
      (TypeName.resolveOption h typeName).andThen (KeywordDeclarator.resolveAll h rest)

def KeywordDeclarator.declareAll (h : Host) (method : Key) : List KeywordDeclarator → Visit
  | [] => done
  | ⟨e, _, typeName, name⟩ :: rest =>
      (TypeName.resolveOption h typeName).andThen
        ((steps h (match name with
          | none => []
          | some n =>
              [.setParameter n.text (match typeName with
                  | none => some "id"
                  | some t => Specifier.lastType? t.specifiers),
                defineName n e .parameter (method.child n.text)])).andThen
        (KeywordDeclarator.declareAll h method rest))

def MessageSelector.visitOption (h : Host) : Option MessageSelector → Visit
  | none => done
  | some ⟨_, _, keywords⟩ => KeywordArgument.visitAll h keywords

def KeywordArgument.visitAll (h : Host) : List KeywordArgument → Visit
  | [] => done
  | ⟨_, _, argument⟩ :: rest =>
      (Node.visitOption h argument).andThen (KeywordArgument.visitAll h rest)

end

/-- The visit of a construct: its handler, up to a skip. -/
def Node.visit (h : Host) (n : Node) : Visit := rescue h (n.handle h)

end SymbolGraph
