import Mathlib.Data.List.Basic
import SymbolGraph.Proofs.TableEntry

/-!
# `Proofs.Script` — the grammar of the steps of a tree

Whatever a tree looks like, its steps are built by eight rules: nothing, one
sequence after another, a plain step, an entry into the tables with the step that
grounds it RIGHT beside it, behind it or in front of it, and the three brackets

    openClass   body  closeScope
    openBlock   body  closeScope
    openRoutine body  closeRoutine

Outside the brackets of classes and routines all names are declared and looked up
in one context; inside, the class or the routine is another one.  The bracket of a class
comes with what makes the class known: it is mentioned first, and registered before the
bracket opens.

`Node.script` goes through all constructs once.  What is true of every script by an
induction on these rules is true of every tree, and such a proof does not open
`Node.actions` again.

A script does not tell which construct a step belongs to.  Where the steps are compared
with what the constructs themselves say, the constructs are gone through once more: for
the names that they are made of (`Proofs.Faithful`), for what they hold
(`Proofs.Occurrence`) and where a step stems from (`Proofs.Origin`), for what they
denote (`Proofs.Environment`) and for how a visit handles them (`Proofs.Discipline`).
A construct whose steps change has one case to be changed in each of these.
-/

namespace SymbolGraph

open SymbolGraph.Action

/-- A step that opens and closes nothing and enters nothing into the tables; what it
declares or looks up, it does in the context. -/
def Action.IsPlain (c : Context) : Action → Prop
  | .openClass | .openBlock | .closeScope | .openRoutine | .closeRoutine => False
  | .registerClass _ | .addType _ | .addFunction _ | .declareMethod _ => False
  | .setGlobal .. | .setMember .. => False
  | .declareLocal d .. | .read d _ | .access d .. | .send d .. => d = c
  | _ => True

/-- The steps that a tree can have in a context. -/
inductive Script : Context → List Action → Prop
  | nil {c : Context} : Script c []
  | append {c : Context} {as bs : List Action} : Script c as → Script c bs → Script c (as ++ bs)
  | plain {c : Context} {a : Action} : a.IsPlain c → Script c [a]
  /-- The table of the class around needs no ground here: the class was registered. -/
  | entered {c : Context} {a b : Action} : a.entries ≠ [] →
      (∀ e ∈ a.entries, e.GroundedBy b ∨ ∃ className ∈ c.className, e = .table className) →
      b.IsPlain c → Script c [a, b]
  | recorded {c : Context} {a b : Action} {path : String} :
      a = .addType path ∨ a = .addFunction path → b.Refers path → b.IsPlain c → Script c [b, a]
  | classScope {c : Context} {className : String} {mention : Action}
      {before between body : List Action} :
      mention.Refers className → mention.IsPlain c → Script c before → Script c between →
      Script { c with className := className } body →
      Script c (mention :: (before ++ .registerClass className ::
        (between ++ .openClass :: (body ++ [.closeScope]))))
  | block {c : Context} {body : List Action} :
      Script c body → Script c (.openBlock :: (body ++ [.closeScope]))
  | routine {c : Context} {methodName : String} {body : List Action} :
      Script { c with methodName := methodName } body →
      Script c (.openRoutine :: (body ++ [.closeRoutine]))

namespace Script

variable {c : Context}

theorem cons {a : Action} {as : List Action} (ha : a.IsPlain c) (h : Script c as) :
    Script c (a :: as) :=
  append (plain ha) h

theorem ofPlain : ∀ {as : List Action}, (∀ a ∈ as, a.IsPlain c) → Script c as
  | [], _ => .nil
  | _ :: _, h =>
      cons (h _ List.mem_cons_self) (ofPlain fun a ha => h a (List.mem_cons_of_mem _ ha))

theorem map {α : Type} {f : α → Action} (hf : ∀ x, (f x).IsPlain c) (xs : List α) :
    Script c (xs.map f) := by
  refine ofPlain fun a ha => ?_
  obtain ⟨x, -, rfl⟩ := List.mem_map.mp ha
  exact hf x

theorem flatMap {α : Type} {f : α → List Action} (hf : ∀ x, Script c (f x)) :
    ∀ xs : List α, Script c (xs.flatMap f)
  | [] => .nil
  | x :: xs => by
      rw [List.flatMap_cons]
      exact .append (hf x) (flatMap hf xs)

theorem ite {p : Prop} [Decidable p] {as bs : List Action} (ha : Script c as) (hb : Script c bs) :
    Script c (if p then as else bs) := by
  split
  · exact ha
  · exact hb

theorem referNames (names : List Excerpt) : Script c (names.map referName) :=
  map (fun _ => by trivial) names

/-! What one place of the tables needs. -/

theorem global {b : Action} {name : String} (hb : b.Refers name) (hplain : b.IsPlain c)
    (type : Option String) : Script c [.setGlobal name type, b] := by
  refine entered (List.cons_ne_nil _ _) (fun e he => ?_) hplain
  rw [List.mem_singleton.mp he]
  exact Or.inl hb

theorem type {b : Action} {name : String} (hb : b.Refers name) (hplain : b.IsPlain c) :
    Script c [.addType name, b] := by
  refine entered (List.cons_ne_nil _ _) (fun e he => ?_) hplain
  rw [List.mem_singleton.mp he]
  exact Or.inl hb

theorem function {b : Action} {path : String} (hb : b.Refers path) (hplain : b.IsPlain c) :
    Script c [.addFunction path, b] := by
  refine entered (List.cons_ne_nil _ _) (fun e he => ?_) hplain
  rw [List.mem_singleton.mp he]
  exact Or.inl hb

theorem method (anchor owner : Excerpt) (key : Key) (name : String) :
    Script c [.declareMethod key.path, .define anchor owner .method key name []] := by
  refine entered (List.cons_ne_nil _ _) (fun e he => ?_) trivial
  rcases List.mem_pair.mp he with rfl | rfl
  · exact Or.inl rfl
  · exact Or.inl ⟨anchor, owner, _, key, name, _, rfl, rfl⟩

theorem implemented (anchor owner : Excerpt) (key : Key) (name : String) :
    Script c [.implement anchor owner key name, .addFunction key.path] :=
  recorded (Or.inr rfl) rfl trivial

theorem member {className : String} (h : c.className = some className) (ident owner : Excerpt)
    (kind : Kind) (name : String) (type : Option String) (modifiers : List String) :
    Script c [.setMember className name type,
      .define ident owner kind (.member className name) name modifiers] := by
  refine entered (List.cons_ne_nil _ _) (fun e he => ?_) trivial
  rcases List.mem_pair.mp he with rfl | rfl
  · exact Or.inr ⟨className, h, rfl⟩
  · exact Or.inl (Or.inl ⟨ident, owner, kind, _, name, modifiers, rfl, rfl⟩)

end Script

/-! ## The parts of a construct that hold no construct -/

theorem declareVariable_script (c : Context) (ident owner : Excerpt) (type : Option String)
    (kind : Option Kind) : Script c (declareVariable c ident owner type kind) := by
  unfold declareVariable
  split
  · exact .plain rfl
  · next hclass => exact .member hclass _ _ _ _ _ _
  · exact .global (refers_defineName _ _ _) trivial _

theorem declareIvar_script {c : Context} {className : String} (h : c.className = some className)
    (ivar : Ivar) : Script c (declareIvar className ivar) := by
  unfold declareIvar
  exact .flatMap (fun _ => .member h _ _ _ _ _ _) _

theorem declareBound_script (c : Context) (declarator : Option Declarator) (owner : Excerpt)
    (type : Option String) : Script c (declareBound c declarator owner type) := by
  unfold declareBound
  split
  · exact .plain rfl
  · exact .nil

theorem declareOne_script (c : Context) (d : Declaration) (ident : Excerpt)
    (declarator : Declarator) : Script c (declareOne c d ident declarator) := by
  unfold declareOne
  refine .ite (.type (refers_defineName _ _ _) trivial) (.ite (.plain rfl) ?_)
  refine .ite (.function (refers_referName _) trivial) ?_
  refine .ite (.global (refers_referName _) trivial _) ?_
  exact declareVariable_script c ident d.excerpt _ none

theorem readIdentifier_script (c : Context) (ident : Excerpt) :
    Script c (readIdentifier c ident) := by
  unfold readIdentifier
  exact .ite .nil (.ite (.map (fun _ => by trivial) _) (.plain rfl))

/-! ## Methods, inside and outside a class -/

namespace Node

variable {c : Context} {className : String} {selector : Option Selector}

theorem actions_methodDeclaration (h : c.className = some className) (e : Excerpt)
    (isClassMethod : Bool) (returnType : Option TypeName) (s : Selector) :
    actions c (.methodDeclaration e isClassMethod returnType (some s)) =
      .declareMethod (Key.member className s.name).path ::
        .define s.anchor e .method (.member className s.name) s.name [] ::
        (TypeName.actionsOfOption c returnType ++ KeywordDeclarator.typeActions c s.keywords) := by
  obtain ⟨excerpt, unary, keywords⟩ := s
  rw [actions]
  case heq => exact h
  rfl

theorem actions_methodDeclaration_outside (h : c.className = none ∨ selector = none) (e : Excerpt)
    (isClassMethod : Bool) (returnType : Option TypeName) :
    actions c (.methodDeclaration e isClassMethod returnType selector) =
      [.skip .methodDeclarationOutside e.start] := by
  rw [actions.eq_def]
  dsimp only
  split
  · next hclass => simp [hclass] at h
  · rfl

theorem actions_methodDefinition (h : c.className = some className) (e : Excerpt)
    (isClassMethod : Bool) (returnType : Option TypeName) (s : Selector) (body : Option Node) :
    actions c (.methodDefinition e isClassMethod returnType (some s) body) =
      .implement s.anchor e (.member className s.name) s.name ::
        .addFunction (Key.member className s.name).path :: .openRoutine ::
        (TypeName.actionsOfOption { c with methodName := s.name } returnType ++
          KeywordDeclarator.actionsOfAll { c with methodName := s.name }
            (.member className s.name) s.keywords ++
          actionsOfOption { c with methodName := s.name } body ++ [.closeRoutine]) := by
  obtain ⟨excerpt, unary, keywords⟩ := s
  rw [actions]
  case heq => exact h
  rfl

theorem actions_methodDefinition_outside (h : c.className = none ∨ selector = none) (e : Excerpt)
    (isClassMethod : Bool) (returnType : Option TypeName) (body : Option Node) :
    actions c (.methodDefinition e isClassMethod returnType selector body) =
      [.skip .methodDefinitionOutside e.start] := by
  rw [actions.eq_def]
  dsimp only
  split
  · next hclass => simp [hclass] at h
  · rfl

end Node

/-! ## Every construct -/

mutual

theorem Node.script (c : Context) : ∀ n : Node, Script c (n.actions c)
  | .unit _ items => by
      rw [Node.actions]
      exact Node.scriptOfAll c items
  | .inclusion _ path _ _ => by
      rw [Node.actions]
      exact .ite .nil (.plain trivial)
  | .classInterface e none _ _ _ _ => by
      rw [Node.actions]
      exact .plain trivial
  | .classInterface e (some name) superclass protocols ivars members => by
      have body := (Ivar.scriptOfAll (c := { c with className := name.text }) rfl ivars).append
        (Node.scriptOfAll { c with className := name.text } members)
      have head := (Script.referNames (c := c) superclass.toList).append (.referNames protocols)
      have all := Script.classScope (refers_defineName name e .classType) trivial .nil head body
      simpa only [Node.actions, List.append_assoc, List.cons_append, List.nil_append] using all
  | .categoryInterface e none _ _ _ _ => by
      rw [Node.actions]
      exact .plain trivial
  | .categoryInterface e (some name) category protocols ivars members => by
      have body := (Ivar.scriptOfAll (c := { c with className := name.text }) rfl ivars).append
        (Node.scriptOfAll { c with className := name.text } members)
      have head : Script c (category.toList.flatMap fun k =>
          [defineName k e .category (.global k.text), .addType k.text]) :=
        .flatMap (fun _ => .recorded (.inl rfl) (refers_defineName _ _ _) trivial) _
      have all :=
        Script.classScope (refers_referName name) trivial head (.referNames protocols) body
      simpa only [Node.actions, List.append_assoc, List.cons_append] using all
  | .classImplementation e none _ _ _ _ => by
      rw [Node.actions]
      exact .plain trivial
  | .classImplementation _ (some name) superclass category ivars members => by
      have body := (Ivar.scriptOfAll (c := { c with className := name.text }) rfl ivars).append
        (Node.scriptOfAll { c with className := name.text } members)
      have head :=
        (Script.referNames (c := c) superclass.toList).append (.referNames category.toList)
      have all := Script.classScope (refers_referName name) trivial .nil head body
      simpa only [Node.actions, List.append_assoc, List.cons_append, List.nil_append] using all
  | .protocolDeclaration e none _ _ => by
      rw [Node.actions]
      exact .plain trivial
  | .protocolDeclaration e (some name) protocols members => by
      have body := Node.scriptOfAll { c with className := name.text } members
      have all := Script.classScope (refers_defineName name e .protocol) trivial .nil
        (.referNames protocols) body
      simpa only [Node.actions, List.append_assoc, List.cons_append, List.nil_append] using all
  | .forwardDeclaration _ names _ => by
      rw [Node.actions]
      exact .referNames names
  | .methodDeclaration e _ returnType none => by
      rw [Node.actions_methodDeclaration_outside (.inr rfl)]
      exact .plain trivial
  | .methodDeclaration e _ returnType (some ⟨excerpt, unary, keywords⟩) => by
      cases hclass : c.className with
      | none =>
          rw [Node.actions_methodDeclaration_outside (.inl hclass)]
          exact .plain trivial
      | some className =>
          rw [Node.actions_methodDeclaration hclass]
          refine .append (.method _ _ _ _) (.append (TypeName.scriptOfOption c returnType) ?_)
          exact KeywordDeclarator.typeScript c keywords
  | .methodDefinition e _ returnType none body => by
      rw [Node.actions_methodDefinition_outside (.inr rfl)]
      exact .plain trivial
  | .methodDefinition e _ returnType (some ⟨excerpt, unary, keywords⟩) body => by
      cases hclass : c.className with
      | none =>
          rw [Node.actions_methodDefinition_outside (.inl hclass)]
          exact .plain trivial
      | some className =>
          rw [Node.actions_methodDefinition hclass]
          exact .append (.implemented _ _ _ _) (.routine (.append (.append
            (TypeName.scriptOfOption _ returnType) (KeywordDeclarator.scriptOfAll _ _ keywords))
            (Node.scriptOfOption _ body)))
  | .propertyDeclaration e _ specifiers names => by
      cases hclass : c.className with
      | none =>
          simp only [Node.actions, hclass]
          exact .plain trivial
      | some className =>
          simp only [Node.actions, hclass]
          exact .append (Specifier.scriptOfAll c specifiers)
            (.flatMap (fun _ => .member hclass _ _ _ _ _ _) _)
  | .declaration d => by
      rw [Node.actions]
      exact Declaration.script c d
  | .functionDefinition e specifiers none body => by
      simp only [Node.actions]
      exact .plain trivial
  | .functionDefinition e specifiers (some ⟨_, none, _, _⟩) body => by
      simp only [Node.actions]
      exact .plain trivial
  | .functionDefinition e specifiers (some ⟨_, some name, _, parameters⟩) body => by
      have inside := (Parameter.scriptOfOption { c with methodName := name.text } parameters).append
        (Node.scriptOfOption { c with methodName := name.text } body)
      have head : Script c [defineName name e .function (.global name.text),
          .addFunction name.text] := .recorded (.inr rfl) (refers_defineName _ _ _) trivial
      have all := head.append ((Specifier.scriptOfAll c specifiers).append inside.routine)
      simpa only [Node.actions, List.append_assoc, List.cons_append, List.nil_append] using all
  | .compoundStatement _ items => by
      rw [Node.actions]
      exact (Node.scriptOfAll c items).block
  | .forStatement _ header parts body => by
      have inside := (Declaration.localScriptOfOption c header).append
        ((Node.scriptOfAll c parts).append (Node.scriptOfOption c body))
      simpa only [Node.actions, List.append_assoc, List.cons_append] using inside.block
  | .catchClause _ parameter body => by
      have inside := (Parameter.localScriptOfOption c parameter).append (Node.scriptOfOption c body)
      simpa only [Node.actions, List.append_assoc, List.cons_append] using inside.block
  | .blockExpression _ parameters body => by
      have inside := (Parameter.localScriptOfAll c parameters).append (Node.scriptOfOption c body)
      simpa only [Node.actions, List.append_assoc, List.cons_append] using inside.block
  | .identifier e name => by
      rw [Node.actions]
      exact readIdentifier_script c (name.getD e)
  | .memberAccess _ receiver member _ => by
      rw [Node.actions.eq_def]
      dsimp only
      split
      · refine .ite ?_ (.append (readIdentifier_script _ _) (.map (fun _ => by trivial) _))
        split
        · exact .ite .nil (.plain trivial)
        · exact .nil
      · exact Node.scriptOfOption c receiver
  | .messageExpression _ receiver selector => by
      rw [Node.actions.eq_def]
      dsimp only
      refine .append (.append ?_ (Node.scriptOfOption c receiver))
        (MessageSelector.scriptOfOption c selector)
      split
      · exact .plain rfl
      · exact .nil
  | .castExpression _ typeName operand => by
      rw [Node.actions]
      exact .append (TypeName.scriptOfOption c typeName) (Node.scriptOfOption c operand)
  | .generic _ _ children => by
      rw [Node.actions]
      exact Node.scriptOfAll c children

theorem Node.scriptOfAll (c : Context) : ∀ ns : List Node, Script c (Node.actionsOfAll c ns)
  | [] => by
      rw [Node.actionsOfAll]
      exact .nil
  | n :: rest => by
      rw [Node.actionsOfAll]
      exact .append (Node.script c n) (Node.scriptOfAll c rest)

theorem Node.scriptOfOption (c : Context) : ∀ n : Option Node, Script c (Node.actionsOfOption c n)
  | none => by
      rw [Node.actionsOfOption]
      exact .nil
  | some n => by
      rw [Node.actionsOfOption]
      exact Node.script c n

theorem Specifier.script (c : Context) : ∀ s : Specifier, Script c (s.actions c)
  | .enum _ enumeration protocols => by
      rw [Specifier.actions]
      exact .append (.referNames protocols) (Enumeration.scriptOfOption c enumeration)
  | .named _ name protocols => by
      rw [Specifier.actions]
      exact .append (.referNames protocols) (.flatMap (fun _ => .ite .nil (.plain (by trivial))) _)
  | .struct _ name protocols => by
      rw [Specifier.actions]
      exact .append (.referNames protocols) (.flatMap (fun _ => .ite .nil (.plain (by trivial))) _)
  | .primitive e protocols => by
      rw [Specifier.actions]
      exact .append (.referNames protocols) (.ite (.plain trivial) .nil)
  | .other _ protocols => by
      rw [Specifier.actions]
      exact .referNames protocols

theorem Specifier.scriptOfAll (c : Context) :
    ∀ ss : List Specifier, Script c (Specifier.actionsOfAll c ss)
  | [] => by
      rw [Specifier.actionsOfAll]
      exact .nil
  | s :: rest => by
      rw [Specifier.actionsOfAll]
      exact .append (Specifier.script c s) (Specifier.scriptOfAll c rest)

theorem Enumeration.script (c : Context) : ∀ e : Enumeration, Script c (e.actions c)
  | ⟨e, name, underlying, constants⟩ => by
      rw [Enumeration.actions.eq_def]
      dsimp only
      refine .append (.append (TypeName.scriptOfOption c underlying) ?_)
        (Enumerator.scriptOfAll c _ constants)
      split
      · exact .nil
      · exact .plain trivial
      · exact .recorded (.inl rfl) (refers_defineName _ _ _) trivial

theorem Enumeration.scriptOfOption (c : Context) :
    ∀ e : Option Enumeration, Script c (Enumeration.actionsOfOption c e)
  | none => by
      rw [Enumeration.actionsOfOption]
      exact .nil
  | some e => by
      rw [Enumeration.actionsOfOption]
      exact Enumeration.script c e

theorem Enumerator.scriptOfAll (c : Context) (type : String) :
    ∀ es : List Enumerator, Script c (Enumerator.actionsOfAll c type es)
  | [] => by
      rw [Enumerator.actionsOfAll]
      exact .nil
  | ⟨_, none, _⟩ :: rest => by
      rw [Enumerator.actionsOfAll]
      exact Enumerator.scriptOfAll c type rest
  | ⟨e, some name, value⟩ :: rest => by
      rw [Enumerator.actionsOfAll]
      exact .append (.append (declareVariable_script _ _ _ _ _) (Node.scriptOfOption c value))
        (Enumerator.scriptOfAll c type rest)

theorem TypeName.scriptOfOption (c : Context) :
    ∀ t : Option TypeName, Script c (TypeName.actionsOfOption c t)
  | none => by
      rw [TypeName.actionsOfOption]
      exact .nil
  | some ⟨_, specifiers⟩ => by
      rw [TypeName.actionsOfOption]
      exact Specifier.scriptOfAll c specifiers

theorem Declaration.script (c : Context) : ∀ d : Declaration, Script c (d.actions c)
  | ⟨e, storage, specifiers, declarators⟩ => by
      rw [Declaration.actions]
      exact .append (Specifier.scriptOfAll c specifiers)
        (InitDeclarator.scriptOfAll c _ declarators)

theorem InitDeclarator.scriptOfAll (c : Context) (d : Declaration) :
    ∀ ds : List InitDeclarator, Script c (InitDeclarator.actionsOfAll c d ds)
  | [] => by
      rw [InitDeclarator.actionsOfAll]
      exact .nil
  | ⟨_, none, value⟩ :: rest => by
      rw [InitDeclarator.actionsOfAll.eq_def]
      exact .append (.append .nil (Node.scriptOfOption c value))
        (InitDeclarator.scriptOfAll c d rest)
  | ⟨_, some ⟨_, none, _, _⟩, value⟩ :: rest => by
      rw [InitDeclarator.actionsOfAll.eq_def]
      exact .append (.append .nil (Node.scriptOfOption c value))
        (InitDeclarator.scriptOfAll c d rest)
  | ⟨_, some ⟨e, some ident, nested, parameters⟩, value⟩ :: rest => by
      rw [InitDeclarator.actionsOfAll.eq_def]
      have parts : Script c (if isPrototype d ⟨e, some ident, nested, parameters⟩ then
          Parameter.specifierActionsOfOption c parameters else []) :=
        .ite (Parameter.specifierScriptOfOption c parameters) .nil
      exact .append (.append (.append (declareOne_script c d _ _) parts)
        (Node.scriptOfOption c value)) (InitDeclarator.scriptOfAll c d rest)

theorem Declaration.localScriptOfOption (c : Context) :
    ∀ d : Option Declaration, Script c (Declaration.localActionsOfOption c d)
  | none => by
      rw [Declaration.localActionsOfOption]
      exact .nil
  | some ⟨e, _, specifiers, declarators⟩ => by
      rw [Declaration.localActionsOfOption]
      exact .append (Specifier.scriptOfAll c specifiers)
        (InitDeclarator.localScriptOfAll c e _ declarators)

theorem InitDeclarator.localScriptOfAll (c : Context) (owner : Excerpt) (type : Option String) :
    ∀ ds : List InitDeclarator, Script c (InitDeclarator.localActionsOfAll c owner type ds)
  | [] => by
      rw [InitDeclarator.localActionsOfAll]
      exact .nil
  | ⟨_, declarator, value⟩ :: rest => by
      rw [InitDeclarator.localActionsOfAll]
      exact .append (.append (declareBound_script _ _ _ _) (Node.scriptOfOption c value))
        (InitDeclarator.localScriptOfAll c owner type rest)

theorem Parameter.scriptOfAll (c : Context) :
    ∀ ps : List Parameter, Script c (Parameter.actionsOfAll c ps)
  | [] => by
      rw [Parameter.actionsOfAll]
      exact .nil
  | ⟨e, specifiers, declarator⟩ :: rest => by
      rw [Parameter.actionsOfAll.eq_def]
      dsimp only
      refine .append (.append (Specifier.scriptOfAll c specifiers) ?_)
        (Parameter.scriptOfAll c rest)
      split
      · exact .cons trivial (.plain trivial)
      · exact .nil

theorem Parameter.scriptOfOption (c : Context) :
    ∀ ps : Option (List Parameter), Script c (Parameter.actionsOfOption c ps)
  | none => by
      rw [Parameter.actionsOfOption]
      exact .nil
  | some ps => by
      rw [Parameter.actionsOfOption]
      exact Parameter.scriptOfAll c ps

theorem Parameter.localScript (c : Context) : ∀ p : Parameter, Script c (p.localActions c)
  | ⟨e, specifiers, declarator⟩ => by
      rw [Parameter.localActions]
      exact .append (Specifier.scriptOfAll c specifiers) (declareBound_script _ _ _ _)

theorem Parameter.localScriptOfAll (c : Context) :
    ∀ ps : List Parameter, Script c (Parameter.localActionsOfAll c ps)
  | [] => by
      rw [Parameter.localActionsOfAll]
      exact .nil
  | p :: rest => by
      rw [Parameter.localActionsOfAll]
      exact .append (Parameter.localScript c p) (Parameter.localScriptOfAll c rest)

theorem Parameter.localScriptOfOption (c : Context) :
    ∀ p : Option Parameter, Script c (Parameter.localActionsOfOption c p)
  | none => by
      rw [Parameter.localActionsOfOption]
      exact .nil
  | some p => by
      rw [Parameter.localActionsOfOption]
      exact Parameter.localScript c p

theorem Parameter.specifierScriptOfAll (c : Context) :
    ∀ ps : List Parameter, Script c (Parameter.specifierActionsOfAll c ps)
  | [] => by
      rw [Parameter.specifierActionsOfAll]
      exact .nil
  | ⟨_, specifiers, _⟩ :: rest => by
      rw [Parameter.specifierActionsOfAll]
      exact .append (Specifier.scriptOfAll c specifiers) (Parameter.specifierScriptOfAll c rest)

theorem Parameter.specifierScriptOfOption (c : Context) :
    ∀ ps : Option (List Parameter), Script c (Parameter.specifierActionsOfOption c ps)
  | none => by
      rw [Parameter.specifierActionsOfOption]
      exact .nil
  | some ps => by
      rw [Parameter.specifierActionsOfOption]
      exact Parameter.specifierScriptOfAll c ps

theorem Ivar.scriptOfAll {c : Context} {className : String} (h : c.className = some className) :
    ∀ ivars : List Ivar, Script c (Ivar.actionsOfAll c className ivars)
  | [] => by
      rw [Ivar.actionsOfAll]
      exact .nil
  | ⟨e, specifiers, names, visibility⟩ :: rest => by
      rw [Ivar.actionsOfAll]
      exact .append (.append (Specifier.scriptOfAll c specifiers) (declareIvar_script h _))
        (Ivar.scriptOfAll h rest)

theorem KeywordDeclarator.typeScript (c : Context) :
    ∀ ks : List KeywordDeclarator, Script c (KeywordDeclarator.typeActions c ks)
  | [] => by
      rw [KeywordDeclarator.typeActions]
      exact .nil
  | ⟨_, _, typeName, _⟩ :: rest => by
      rw [KeywordDeclarator.typeActions]
      exact .append (TypeName.scriptOfOption c typeName) (KeywordDeclarator.typeScript c rest)

theorem KeywordDeclarator.scriptOfAll (c : Context) (method : Key) :
    ∀ ks : List KeywordDeclarator, Script c (KeywordDeclarator.actionsOfAll c method ks)
  | [] => by
      rw [KeywordDeclarator.actionsOfAll]
      exact .nil
  | ⟨e, _, typeName, name⟩ :: rest => by
      rw [KeywordDeclarator.actionsOfAll.eq_def]
      dsimp only
      refine .append (.append (TypeName.scriptOfOption c typeName) ?_)
        (KeywordDeclarator.scriptOfAll c method rest)
      split
      · exact .nil
      · exact .cons trivial (.plain trivial)

theorem MessageSelector.scriptOfOption (c : Context) :
    ∀ s : Option MessageSelector, Script c (MessageSelector.actionsOfOption c s)
  | none => by
      rw [MessageSelector.actionsOfOption]
      exact .nil
  | some ⟨_, _, keywords⟩ => by
      rw [MessageSelector.actionsOfOption]
      exact KeywordArgument.scriptOfAll c keywords

theorem KeywordArgument.scriptOfAll (c : Context) :
    ∀ ks : List KeywordArgument, Script c (KeywordArgument.actionsOfAll c ks)
  | [] => by
      rw [KeywordArgument.actionsOfAll]
      exact .nil
  | ⟨_, _, argument⟩ :: rest => by
      rw [KeywordArgument.actionsOfAll]
      exact .append (Node.scriptOfOption c argument) (KeywordArgument.scriptOfAll c rest)

end

end SymbolGraph
