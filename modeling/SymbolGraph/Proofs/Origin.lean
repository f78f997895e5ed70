import SymbolGraph.Proofs.Occurrence

/-!
# `Proofs.Origin` — the construct that a step comes from

What is held is walked; here is the way back.  Some steps can only come from one kind
of construct,

    openClass, registerClass                  a class, category or protocol
    openRoutine, setParameter, closeRoutine   the definition of a function or method
    inclusion                                 an inclusion

and an entry into the tables, inside a method, only from a property, from an `extern`
declaration or from a class.  `Action.Source` says so of a construct, and
`Node.stemsFrom` finds, for each step of a tree, a construct held by the tree that is a
source of the step.  So a tree that lacks the constructs of some kind has none of the
steps of that kind (`Node.Lacks.not_mem`).
-/

namespace SymbolGraph

open SymbolGraph.Action

namespace Node

/-- A class, a category, an implementation or a protocol. -/
def isContainer : Node → Bool
  | .classInterface .. | .categoryInterface .. | .classImplementation ..
  | .protocolDeclaration .. => true
  | _ => false

/-- The definition of a function or of a method. -/
def isDefinition : Node → Bool
  | .functionDefinition .. | .methodDefinition .. => true
  | _ => false

def isInclusion : Node → Bool
  | .inclusion .. => true
  | _ => false

def isProperty : Node → Bool
  | .propertyDeclaration .. => true
  | _ => false

def isExtern : Node → Bool
  | .declaration d => d.storage.contains "extern"
  | _ => false

/-- The construct, and all that it holds, is of another kind. -/
def Lacks (c : Context) (n : Node) (kind : Node → Bool) : Prop :=
  ∀ d m, Holds c n d m → kind m = false

end Node

/-- The construct, in the context, may have the step as one of its own. -/
def Action.Source (c : Context) (n : Node) : Action → Prop
  | .inclusion _ => n.isInclusion
  | .openClass | .registerClass _ => n.isContainer
  | .openRoutine | .closeRoutine | .setParameter .. => n.isDefinition
  | .setGlobal .. => c.methodName = none ∨ n.isExtern
  | .setMember .. => c.methodName = none ∨ n.isProperty ∨ n.isContainer
  | _ => True

/-- Being inside a method is all that the context says about a source. -/
theorem Action.Source.of_context {c d : Context} {n : Node} {a : Action} (h : a.Source d n)
    (hmethod : d.methodName = none → c.methodName = none) : a.Source c n := by
  cases a with
  | setGlobal | setMember => exact h.imp_left hmethod
  | _ => exact h

/-- The step comes from the construct or from one that it holds.  A construct held inside
a method stays inside one, so the outer context is enough to tell its sources. -/
def Action.StemsFrom (c : Context) (n : Node) (a : Action) : Prop :=
  ∃ d m, Node.Holds c n d m ∧ a.Source c m

theorem Action.StemsFrom.own {c : Context} {n : Node} {a : Action} (h : a.Source c n) :
    a.StemsFrom c n :=
  ⟨c, n, .here c n, h⟩

/-- Each of the steps is one of the construct's own, or comes from one of its parts. -/
def Traced (c : Context) (n : Node) (steps : List Action) (parts : List Node) : Prop :=
  ∀ a ∈ steps, a.Source c n ∨ ∃ m ∈ parts, a.StemsFrom c m

namespace Traced

variable {c : Context} {n : Node} {as bs : List Action} {ns ms : List Node}

theorem nil : Traced c n [] ns := List.forall_mem_nil _

theorem mono (h : Traced c n as ns) (hparts : ns ⊆ ms) : Traced c n as ms :=
  fun a ha => (h a ha).imp_right fun ⟨m, hm, hstems⟩ => ⟨m, hparts hm, hstems⟩

theorem append (ha : Traced c n as ns) (hb : Traced c n bs ms) :
    Traced c n (as ++ bs) (ns ++ ms) := by
  intro a hmem
  rcases List.mem_append.mp hmem with hmem | hmem
  · exact ha.mono (List.subset_append_left _ _) a hmem
  · exact hb.mono (List.subset_append_right _ _) a hmem

theorem own (h : ∀ a ∈ as, a.Source c n) : Traced c n as ns := fun a ha => Or.inl (h a ha)

theorem cons {a : Action} (ha : a.Source c n) (has : Traced c n as ns) : Traced c n (a :: as) ns :=
  List.forall_mem_cons.mpr ⟨Or.inl ha, has⟩

theorem ownAppend (ha : ∀ a ∈ as, a.Source c n) (hb : Traced c n bs ms) :
    Traced c n (as ++ bs) ms :=
  append (own ha : Traced c n as []) hb

theorem appendOwn (ha : Traced c n as ns) (hb : ∀ a ∈ bs, a.Source c n) :
    Traced c n (as ++ bs) ns := by
  intro a hmem
  rcases List.mem_append.mp hmem with hmem | hmem
  · exact ha a hmem
  · exact Or.inl (hb a hmem)

theorem bracket {first last : Action} (hfirst : first.Source c n) (has : Traced c n as ns)
    (hlast : last.Source c n) : Traced c n (first :: (as ++ [last])) ns :=
  cons hfirst (has.appendOwn (List.forall_mem_singleton.mpr hlast))

theorem bracketPair {first last : Action} (hfirst : first.Source c n) (ha : Traced c n as ns)
    (hb : Traced c n bs ms) (hlast : last.Source c n) :
    Traced c n (first :: (as ++ (bs ++ [last]))) (ns ++ ms) := by
  rw [← List.append_assoc]
  exact bracket hfirst (ha.append hb) hlast

/-- The steps of a construct come from it or from what it holds, if its parts are right
inside it. -/
theorem stemsFrom {d : Context} (h : Traced d n as ns) (hparts : ∀ m ∈ ns, (d, m) ∈ n.children c)
    (hmethod : d.methodName = none → c.methodName = none) : ∀ a ∈ as, a.StemsFrom c n := by
  intro a ha
  rcases h a ha with hown | ⟨m, hm, e, k, hholds, hsource⟩
  · exact .own (hown.of_context hmethod)
  · exact ⟨e, k, .inside (hparts m hm) hholds, hsource.of_context hmethod⟩

end Traced

/-- The parts of a construct that stand in one context are right inside it. -/
theorem inContext {c : Context} {ns : List Node} : ∀ m ∈ ns, (c, m) ∈ ns.map (c, ·) :=
  fun _ hm => Node.mem_inContext.mpr ⟨rfl, hm⟩

/-! ## The parts of a construct that hold no construct -/

section Parts

variable (c : Context) (n : Node)

theorem source_referNames (names : List Excerpt) : ∀ a ∈ names.map referName, a.Source c n := by
  intro a ha
  obtain ⟨e, -, rfl⟩ := List.mem_map.mp ha
  trivial

theorem source_declareVariable (ident owner : Excerpt) (type : Option String)
    (kind : Option Kind) : ∀ a ∈ declareVariable c ident owner type kind, a.Source c n := by
  unfold declareVariable
  split
  · exact List.forall_mem_singleton.mpr trivial
  · next hmethod _ =>
    exact List.forall_mem_cons.mpr ⟨.inl hmethod, List.forall_mem_singleton.mpr trivial⟩
  · next hmethod _ =>
    exact List.forall_mem_cons.mpr ⟨.inl hmethod, List.forall_mem_singleton.mpr trivial⟩

theorem source_declareIvar {n : Node} (hn : n.isContainer) (className : String) (ivar : Ivar) :
    ∀ a ∈ declareIvar className ivar, a.Source c n := by
  intro a ha
  obtain ⟨name, -, ha⟩ := List.mem_flatMap.mp ha
  rcases List.mem_pair.mp ha with rfl | rfl
  · exact Or.inr (Or.inr hn)
  · trivial

theorem source_declareBound (declarator : Option Declarator) (owner : Excerpt)
    (type : Option String) : ∀ a ∈ declareBound c declarator owner type, a.Source c n := by
  unfold declareBound
  split
  · exact List.forall_mem_singleton.mpr trivial
  · exact List.forall_mem_nil _

theorem source_declareOne {n : Node} {d : Declaration}
    (hstorage : "extern" ∈ d.storage → n.isExtern) (ident : Excerpt) (declarator : Declarator) :
    ∀ a ∈ declareOne c d ident declarator, a.Source c n := by
  unfold declareOne
  dsimp only
  split
  · exact List.forall_mem_cons.mpr ⟨trivial, List.forall_mem_singleton.mpr trivial⟩
  split
  · exact List.forall_mem_singleton.mpr trivial
  split
  · exact List.forall_mem_cons.mpr ⟨trivial, List.forall_mem_singleton.mpr trivial⟩
  split
  · next h =>
    exact List.forall_mem_cons.mpr ⟨.inr (hstorage h), List.forall_mem_singleton.mpr trivial⟩
  · exact source_declareVariable c n ident d.excerpt _ none

theorem source_readIdentifier (ident : Excerpt) : ∀ a ∈ readIdentifier c ident, a.Source c n := by
  intro a ha
  unfold readIdentifier at ha
  split at ha
  · cases ha
  split at ha
  · obtain ⟨_, -, rfl⟩ := List.mem_map.mp ha
    trivial
  · rw [List.mem_singleton.mp ha]
    trivial

theorem source_name (name : Option Excerpt) : ∀ a ∈ name.toList.flatMap (fun e =>
    if e.text ∈ reservedSpecifiers then [] else [referName e]), a.Source c n := by
  intro a ha
  obtain ⟨e, -, ha⟩ := List.mem_flatMap.mp ha
  split at ha
  · cases ha
  · rw [List.mem_singleton.mp ha]
    trivial

theorem source_identifierAccess (x e : Excerpt) (name member : Option Excerpt) (isArrow : Bool) :
    ∀ a ∈ Node.actions c (.memberAccess x (some (.identifier e name)) member isArrow),
      a.Source c n := by
  simp only [Node.actions]
  split
  · split
    · split
      · exact List.forall_mem_nil _
      · exact List.forall_mem_singleton.mpr trivial
    · exact List.forall_mem_nil _
  · refine List.forall_mem_append.mpr ⟨source_readIdentifier c n _, fun a ha => ?_⟩
    obtain ⟨m, -, rfl⟩ := List.mem_map.mp ha
    trivial

end Parts

/-! ## Every construct -/

mutual

theorem Node.stemsFrom (c : Context) : ∀ n : Node, ∀ a ∈ n.actions c, a.StemsFrom c n
  | .unit _ items | .generic _ _ items => by
      rw [Node.actions]
      exact (Node.tracedOfAll c _ items).stemsFrom inContext id
  | .inclusion _ path _ _ => by
      rw [Node.actions]
      split
      · exact List.forall_mem_nil _
      · exact List.forall_mem_singleton.mpr (.own rfl)
  | .classInterface e none _ _ _ _ | .categoryInterface e none _ _ _ _
  | .classImplementation e none _ _ _ _ | .protocolDeclaration e none _ _ => by
      rw [Node.actions]
      exact List.forall_mem_singleton.mpr (.own trivial)
  | .classInterface e (some name) superclass protocols ivars members => by
      refine Traced.stemsFrom ?_ inContext id
      simp only [Node.actions, List.append_assoc, List.cons_append]
      exact .cons trivial (.cons rfl (.ownAppend (source_referNames _ _ superclass.toList)
        (.ownAppend (source_referNames _ _ protocols) (.bracketPair rfl
          (Ivar.tracedOfAll _ rfl _ ivars) (Node.tracedOfAll _ _ members) trivial))))
  | .categoryInterface e (some name) category protocols ivars members => by
      refine Traced.stemsFrom ?_ inContext id
      simp only [Node.actions, List.append_assoc, List.cons_append]
      refine .cons trivial (.ownAppend ?_ (.cons rfl (.ownAppend (source_referNames _ _ protocols)
        (.bracketPair rfl (Ivar.tracedOfAll _ rfl _ ivars) (Node.tracedOfAll _ _ members)
          trivial))))
      intro a ha
      obtain ⟨k, -, ha⟩ := List.mem_flatMap.mp ha
      rcases List.mem_pair.mp ha with rfl | rfl <;> trivial
  | .classImplementation _ (some name) superclass category ivars members => by
      refine Traced.stemsFrom ?_ inContext id
      simp only [Node.actions, List.append_assoc, List.cons_append]
      exact .cons trivial (.cons rfl (.ownAppend (source_referNames _ _ superclass.toList)
        (.ownAppend (source_referNames _ _ category.toList) (.bracketPair rfl
          (Ivar.tracedOfAll _ rfl _ ivars) (Node.tracedOfAll _ _ members) trivial))))
  | .protocolDeclaration e (some name) protocols members => by
      refine Traced.stemsFrom ?_ inContext id
      simp only [Node.actions, List.append_assoc, List.cons_append]
      exact .cons trivial (.cons rfl (.ownAppend (source_referNames _ _ protocols)
        (.bracket rfl (Node.tracedOfAll _ _ members) trivial)))
  | .forwardDeclaration _ names _ => by
      rw [Node.actions]
      exact fun a ha => .own (source_referNames c _ names a ha)
  | .methodDeclaration e _ returnType none => by
      rw [Node.actions_methodDeclaration_outside (.inr rfl)]
      exact List.forall_mem_singleton.mpr (.own trivial)
  | .methodDeclaration e _ returnType (some ⟨excerpt, unary, keywords⟩) => by
      cases hclass : c.className with
      | none =>
          rw [Node.actions_methodDeclaration_outside (.inl hclass)]
          exact List.forall_mem_singleton.mpr (.own trivial)
      | some className =>
          rw [Node.actions_methodDeclaration hclass]
          refine Traced.stemsFrom (.cons trivial (.cons trivial (.append
            (TypeName.tracedOfOption c _ returnType) (KeywordDeclarator.typeTraced c _ keywords))))
            (fun m hm => ?_) id
          rw [Node.children, hclass]
          exact inContext m hm
  | .methodDefinition e _ returnType none body => by
      rw [Node.actions_methodDefinition_outside (.inr rfl)]
      exact List.forall_mem_singleton.mpr (.own trivial)
  | .methodDefinition e isClassMethod returnType (some ⟨excerpt, unary, keywords⟩) body => by
      cases hclass : c.className with
      | none =>
          rw [Node.actions_methodDefinition_outside (.inl hclass)]
          exact List.forall_mem_singleton.mpr (.own trivial)
      | some className =>
          rw [Node.actions_methodDefinition hclass]
          refine Traced.stemsFrom (.cons trivial (.cons trivial (.bracket rfl (.append
            (.append (TypeName.tracedOfOption _ _ returnType)
              (KeywordDeclarator.tracedOfAll _ rfl _ keywords)) (Node.tracedOfOption _ _ body))
            rfl))) (fun m hm => ?_) nofun
          rw [Node.children, hclass]
          exact inContext m hm
  | .propertyDeclaration e _ specifiers names => by
      cases hclass : c.className with
      | none =>
          simp only [Node.actions, hclass]
          exact List.forall_mem_singleton.mpr (.own trivial)
      | some className =>
          simp only [Node.actions, hclass]
          refine Traced.stemsFrom (.appendOwn (Specifier.tracedOfAll c _ specifiers) ?_)
            (fun m hm => ?_) id
          · intro a ha
            obtain ⟨name, -, ha⟩ := List.mem_flatMap.mp ha
            rcases List.mem_pair.mp ha with rfl | rfl
            · exact Or.inr (Or.inl rfl)
            · trivial
          · rw [Node.children, hclass]
            exact inContext m hm
  | .declaration ⟨e, storage, specifiers, declarators⟩ => by
      rw [Node.actions, Declaration.actions]
      have hstorage : "extern" ∈ storage →
          (Node.declaration ⟨e, storage, specifiers, declarators⟩).isExtern :=
        List.contains_iff_mem.mpr
      exact ((Specifier.tracedOfAll c _ specifiers).append
        (InitDeclarator.tracedOfAll c hstorage declarators)).stemsFrom inContext id
  | .functionDefinition e specifiers none body => by
      simp only [Node.actions]
      exact List.forall_mem_singleton.mpr (.own trivial)
  | .functionDefinition e specifiers (some ⟨_, none, _, _⟩) body => by
      simp only [Node.actions]
      exact List.forall_mem_singleton.mpr (.own trivial)
  | .functionDefinition e specifiers (some ⟨x, some name, nested, parameters⟩) body => by
      simp only [Node.actions, List.append_assoc, List.cons_append]
      refine List.forall_mem_cons.mpr ⟨.own trivial, List.forall_mem_cons.mpr
        ⟨.own trivial, List.forall_mem_append.mpr ⟨?_, ?_⟩⟩⟩
      -- The type that the function returns stands outside it, all else inside.
      · exact (Specifier.tracedOfAll c _ specifiers).stemsFrom
          (fun m hm => List.mem_append_left _ (inContext m hm)) id
      · exact Traced.stemsFrom (.bracketPair rfl (Parameter.tracedOfOption _ rfl parameters)
          (Node.tracedOfOption _ _ body) rfl)
          (fun m hm => List.mem_append_right _ (inContext m hm)) nofun
  | .compoundStatement _ items => by
      refine Traced.stemsFrom ?_ inContext id
      rw [Node.actions]
      exact .bracket trivial (Node.tracedOfAll c _ items) trivial
  | .forStatement _ header parts body => by
      refine Traced.stemsFrom ?_ inContext id
      rw [Node.actions]
      exact .bracket trivial (((Declaration.localTracedOfOption c _ header).append
        (Node.tracedOfAll c _ parts)).append (Node.tracedOfOption c _ body)) trivial
  | .catchClause _ parameter body => by
      refine Traced.stemsFrom ?_ inContext id
      rw [Node.actions]
      exact .bracket trivial ((Parameter.localTracedOfOption c _ parameter).append
        (Node.tracedOfOption c _ body)) trivial
  | .blockExpression _ parameters body => by
      refine Traced.stemsFrom ?_ inContext id
      rw [Node.actions]
      exact .bracket trivial ((Parameter.localTracedOfAll c _ parameters).append
        (Node.tracedOfOption c _ body)) trivial
  | .identifier e name => by
      rw [Node.actions]
      exact fun a ha => .own (source_readIdentifier c _ _ a ha)
  | .memberAccess x receiver member isArrow => by
      by_cases hident : ∃ e name, receiver = some (.identifier e name)
      · obtain ⟨e, name, rfl⟩ := hident
        exact fun a ha => .own (source_identifierAccess c _ x e name member isArrow a ha)
      · have hother : ∀ e name, receiver ≠ some (.identifier e name) := fun e name heq =>
          hident ⟨e, name, heq⟩
        rw [Node.actions_memberAccess hother]
        refine (Node.tracedOfOption c _ receiver).stemsFrom (fun m hm => ?_) id
        rw [Node.children]
        · exact inContext m hm
        · exact hother
  | .messageExpression _ receiver selector => by
      refine Traced.stemsFrom ?_ inContext id
      rw [Node.actions.eq_def]
      dsimp only
      rw [List.append_assoc]
      refine .ownAppend ?_ (.append (Node.tracedOfOption c _ receiver)
        (MessageSelector.tracedOfOption c _ selector))
      split
      · exact List.forall_mem_singleton.mpr trivial
      · exact List.forall_mem_nil _
  | .castExpression _ typeName operand => by
      rw [Node.actions]
      exact ((TypeName.tracedOfOption c _ typeName).append
        (Node.tracedOfOption c _ operand)).stemsFrom inContext id
termination_by structural n => n

theorem Node.tracedOfAll (c : Context) (n : Node) :
    ∀ ns : List Node, Traced c n (Node.actionsOfAll c ns) ns
  | [] => by
      rw [Node.actionsOfAll]
      exact .nil
  | m :: rest => by
      rw [Node.actionsOfAll]
      have first : Traced c n (m.actions c) [m] := fun a ha =>
        Or.inr ⟨m, List.mem_singleton.mpr rfl, Node.stemsFrom c m a ha⟩
      exact first.append (Node.tracedOfAll c n rest)
termination_by structural ns => ns

theorem Node.tracedOfOption (c : Context) (n : Node) : ∀ o : Option Node,
    Traced c n (Node.actionsOfOption c o) o.toList
  | none => by
      rw [Node.actionsOfOption]
      exact .nil
  | some m => by
      rw [Node.actionsOfOption]
      exact fun a ha => Or.inr ⟨m, List.mem_singleton.mpr rfl, Node.stemsFrom c m a ha⟩
termination_by structural o => o

theorem Specifier.traced (c : Context) (n : Node) :
    ∀ s : Specifier, Traced c n (s.actions c) s.values
  | .enum _ enumeration protocols => by
      rw [Specifier.actions, Specifier.values]
      exact .ownAppend (source_referNames c n protocols)
        (Enumeration.tracedOfOption c n enumeration)
  | .named _ name protocols => by
      rw [Specifier.actions]
      exact .ownAppend (source_referNames c n protocols) (.own (source_name c n name))
  | .struct _ name protocols => by
      rw [Specifier.actions]
      exact .ownAppend (source_referNames c n protocols) (.own (source_name c n name))
  | .primitive e protocols => by
      rw [Specifier.actions]
      refine .ownAppend (source_referNames c n protocols) (.own ?_)
      split
      · exact List.forall_mem_singleton.mpr trivial
      · exact List.forall_mem_nil _
  | .other _ protocols => by
      rw [Specifier.actions]
      exact .own (source_referNames c n protocols)
termination_by structural s => s

theorem Specifier.tracedOfAll (c : Context) (n : Node) :
    ∀ ss : List Specifier, Traced c n (Specifier.actionsOfAll c ss) (Specifier.valuesOfAll ss)
  | [] => by
      rw [Specifier.actionsOfAll]
      exact .nil
  | s :: rest => by
      rw [Specifier.actionsOfAll, Specifier.valuesOfAll]
      exact .append (Specifier.traced c n s) (Specifier.tracedOfAll c n rest)
termination_by structural ss => ss

theorem Enumeration.tracedOfOption (c : Context) (n : Node) : ∀ e : Option Enumeration,
    Traced c n (Enumeration.actionsOfOption c e) (Enumeration.valuesOfOption e)
  | none => by
      rw [Enumeration.actionsOfOption]
      exact .nil
  | some ⟨e, name, underlying, constants⟩ => by
      rw [Enumeration.actionsOfOption, Enumeration.actions.eq_def, Enumeration.valuesOfOption]
      refine .append (.appendOwn (TypeName.tracedOfOption c n underlying) ?_)
        (Enumerator.tracedOfAll c n _ constants)
      split
      · exact List.forall_mem_nil _
      · exact List.forall_mem_singleton.mpr trivial
      · exact List.forall_mem_cons.mpr ⟨trivial, List.forall_mem_singleton.mpr trivial⟩
termination_by structural e => e

theorem Enumerator.tracedOfAll (c : Context) (n : Node) (type : String) :
    ∀ es : List Enumerator, Traced c n (Enumerator.actionsOfAll c type es) (Enumerator.values es)
  | [] => by
      rw [Enumerator.actionsOfAll]
      exact .nil
  | ⟨_, none, _⟩ :: rest => by
      rw [Enumerator.actionsOfAll]
      exact Enumerator.tracedOfAll c n type rest
  | ⟨e, some name, value⟩ :: rest => by
      rw [Enumerator.actionsOfAll]
      exact .append (.ownAppend (source_declareVariable c n _ _ _ _)
        (Node.tracedOfOption c n value)) (Enumerator.tracedOfAll c n type rest)
termination_by structural es => es

theorem TypeName.tracedOfOption (c : Context) (n : Node) : ∀ t : Option TypeName,
    Traced c n (TypeName.actionsOfOption c t) (TypeName.valuesOfOption t)
  | none => by
      rw [TypeName.actionsOfOption]
      exact .nil
  | some ⟨_, specifiers⟩ => by
      rw [TypeName.actionsOfOption, TypeName.valuesOfOption]
      exact Specifier.tracedOfAll c n specifiers
termination_by structural t => t

theorem InitDeclarator.tracedOfAll (c : Context) {n : Node} {d : Declaration}
    (hstorage : "extern" ∈ d.storage → n.isExtern) : ∀ ds : List InitDeclarator,
      Traced c n (InitDeclarator.actionsOfAll c d ds) (ds.flatMap (InitDeclarator.values d))
  | [] => by
      rw [InitDeclarator.actionsOfAll]
      exact .nil
  | ⟨_, none, value⟩ :: rest => by
      rw [InitDeclarator.actionsOfAll.eq_def]
      exact .append (Node.tracedOfOption c n value) (InitDeclarator.tracedOfAll c hstorage rest)
  | ⟨_, some ⟨_, none, _, _⟩, value⟩ :: rest => by
      rw [InitDeclarator.actionsOfAll.eq_def]
      exact .append (Node.tracedOfOption c n value) (InitDeclarator.tracedOfAll c hstorage rest)
  | ⟨_, some ⟨e, some ident, nested, parameters⟩, value⟩ :: rest => by
      rw [InitDeclarator.actionsOfAll.eq_def]
      refine .append (.append (.ownAppend (source_declareOne c hstorage _ _) ?_)
        (Node.tracedOfOption c n value)) (InitDeclarator.tracedOfAll c hstorage rest)
      split
      · exact Parameter.specifierTracedOfOption c n parameters
      · exact .nil
termination_by structural ds => ds

theorem InitDeclarator.localTracedOfAll (c : Context) (n : Node) (owner : Excerpt)
    (type : Option String) : ∀ ds : List InitDeclarator,
      Traced c n (InitDeclarator.localActionsOfAll c owner type ds) (ds.flatMap (·.value.toList))
  | [] => by
      rw [InitDeclarator.localActionsOfAll]
      exact .nil
  | ⟨_, declarator, value⟩ :: rest => by
      rw [InitDeclarator.localActionsOfAll]
      exact .append (.ownAppend (source_declareBound c n _ _ _) (Node.tracedOfOption c n value))
        (InitDeclarator.localTracedOfAll c n owner type rest)
termination_by structural ds => ds

theorem Declaration.localTracedOfOption (c : Context) (n : Node) : ∀ d : Option Declaration,
    Traced c n (Declaration.localActionsOfOption c d) (d.toList.flatMap Declaration.localValues)
  | none => by
      rw [Declaration.localActionsOfOption]
      exact .nil
  | some ⟨e, _, specifiers, declarators⟩ => by
      rw [Declaration.localActionsOfOption, Option.toList_some, List.flatMap_singleton]
      exact .append (Specifier.tracedOfAll c n specifiers)
        (InitDeclarator.localTracedOfAll c n e _ declarators)
termination_by structural d => d

theorem Parameter.tracedOfAll (c : Context) {n : Node} (hn : n.isDefinition) :
    ∀ ps : List Parameter, Traced c n (Parameter.actionsOfAll c ps) (Parameter.values ps)
  | [] => by
      rw [Parameter.actionsOfAll]
      exact .nil
  | ⟨e, specifiers, declarator⟩ :: rest => by
      rw [Parameter.actionsOfAll.eq_def]
      refine .append (.appendOwn (Specifier.tracedOfAll c n specifiers) ?_)
        (Parameter.tracedOfAll c hn rest)
      split
      · exact List.forall_mem_cons.mpr ⟨hn, List.forall_mem_singleton.mpr trivial⟩
      · exact List.forall_mem_nil _
termination_by structural ps => ps

theorem Parameter.tracedOfOption (c : Context) {n : Node} (hn : n.isDefinition) :
    ∀ ps : Option (List Parameter),
      Traced c n (Parameter.actionsOfOption c ps) (Parameter.values (ps.getD []))
  | none => by
      rw [Parameter.actionsOfOption]
      exact .nil
  | some ps => by
      rw [Parameter.actionsOfOption]
      exact Parameter.tracedOfAll c hn ps
termination_by structural ps => ps

theorem Parameter.localTraced (c : Context) (n : Node) : ∀ p : Parameter,
    Traced c n (p.localActions c) (Specifier.valuesOfAll p.specifiers)
  | ⟨e, specifiers, declarator⟩ => by
      rw [Parameter.localActions]
      exact .appendOwn (Specifier.tracedOfAll c n specifiers) (source_declareBound c n _ _ _)
termination_by structural p => p

theorem Parameter.localTracedOfAll (c : Context) (n : Node) : ∀ ps : List Parameter,
    Traced c n (Parameter.localActionsOfAll c ps) (Parameter.values ps)
  | [] => by
      rw [Parameter.localActionsOfAll]
      exact .nil
  | p :: rest => by
      rw [Parameter.localActionsOfAll]
      exact .append (Parameter.localTraced c n p) (Parameter.localTracedOfAll c n rest)
termination_by structural ps => ps

theorem Parameter.localTracedOfOption (c : Context) (n : Node) : ∀ p : Option Parameter,
    Traced c n (Parameter.localActionsOfOption c p) (Parameter.values p.toList)
  | none => by
      rw [Parameter.localActionsOfOption]
      exact .nil
  | some p => by
      rw [Parameter.localActionsOfOption]
      exact (Parameter.localTraced c n p).mono (List.subset_append_left _ _)
termination_by structural p => p

theorem Parameter.specifierTracedOfAll (c : Context) (n : Node) : ∀ ps : List Parameter,
    Traced c n (Parameter.specifierActionsOfAll c ps) (Parameter.values ps)
  | [] => by
      rw [Parameter.specifierActionsOfAll]
      exact .nil
  | ⟨_, specifiers, _⟩ :: rest => by
      rw [Parameter.specifierActionsOfAll]
      exact .append (Specifier.tracedOfAll c n specifiers) (Parameter.specifierTracedOfAll c n rest)
termination_by structural ps => ps

theorem Parameter.specifierTracedOfOption (c : Context) (n : Node) :
    ∀ ps : Option (List Parameter),
      Traced c n (Parameter.specifierActionsOfOption c ps) (Parameter.values (ps.getD []))
  | none => by
      rw [Parameter.specifierActionsOfOption]
      exact .nil
  | some ps => by
      rw [Parameter.specifierActionsOfOption]
      exact Parameter.specifierTracedOfAll c n ps
termination_by structural ps => ps

theorem Ivar.tracedOfAll (c : Context) {n : Node} (hn : n.isContainer) (className : String) :
    ∀ ivars : List Ivar, Traced c n (Ivar.actionsOfAll c className ivars) (Ivar.values ivars)
  | [] => by
      rw [Ivar.actionsOfAll]
      exact .nil
  | ⟨e, specifiers, names, visibility⟩ :: rest => by
      rw [Ivar.actionsOfAll]
      exact .append (.appendOwn (Specifier.tracedOfAll c n specifiers)
        (source_declareIvar c hn className _)) (Ivar.tracedOfAll c hn className rest)
termination_by structural ivars => ivars

theorem KeywordDeclarator.typeTraced (c : Context) (n : Node) : ∀ ks : List KeywordDeclarator,
    Traced c n (KeywordDeclarator.typeActions c ks) (KeywordDeclarator.values ks)
  | [] => by
      rw [KeywordDeclarator.typeActions]
      exact .nil
  | ⟨_, _, typeName, _⟩ :: rest => by
      rw [KeywordDeclarator.typeActions]
      exact .append (TypeName.tracedOfOption c n typeName) (KeywordDeclarator.typeTraced c n rest)
termination_by structural ks => ks

theorem KeywordDeclarator.tracedOfAll (c : Context) {n : Node} (hn : n.isDefinition)
    (method : Key) : ∀ ks : List KeywordDeclarator,
      Traced c n (KeywordDeclarator.actionsOfAll c method ks) (KeywordDeclarator.values ks)
  | [] => by
      rw [KeywordDeclarator.actionsOfAll]
      exact .nil
  | ⟨e, _, typeName, name⟩ :: rest => by
      rw [KeywordDeclarator.actionsOfAll.eq_def]
      refine .append (.appendOwn (TypeName.tracedOfOption c n typeName) ?_)
        (KeywordDeclarator.tracedOfAll c hn method rest)
      split
      · exact List.forall_mem_nil _
      · exact List.forall_mem_cons.mpr ⟨hn, List.forall_mem_singleton.mpr trivial⟩
termination_by structural ks => ks

theorem MessageSelector.tracedOfOption (c : Context) (n : Node) : ∀ s : Option MessageSelector,
    Traced c n (MessageSelector.actionsOfOption c s)
      (s.toList.flatMap MessageSelector.arguments)
  | none => by
      rw [MessageSelector.actionsOfOption]
      exact .nil
  | some ⟨_, _, keywords⟩ => by
      rw [MessageSelector.actionsOfOption, Option.toList_some, List.flatMap_singleton]
      exact KeywordArgument.tracedOfAll c n keywords
termination_by structural s => s

theorem KeywordArgument.tracedOfAll (c : Context) (n : Node) : ∀ ks : List KeywordArgument,
    Traced c n (KeywordArgument.actionsOfAll c ks) (ks.flatMap (·.argument.toList))
  | [] => by
      rw [KeywordArgument.actionsOfAll]
      exact .nil
  | ⟨_, _, argument⟩ :: rest => by
      rw [KeywordArgument.actionsOfAll]
      exact .append (Node.tracedOfOption c n argument) (KeywordArgument.tracedOfAll c n rest)
termination_by structural ks => ks

end

/-- A tree that lacks the sources of a step does not have the step. -/
theorem Node.Lacks.not_mem {c : Context} {n : Node} {kind : Node → Bool} (h : n.Lacks c kind)
    {a : Action} (hsource : ∀ m, a.Source c m → kind m = true) : a ∉ n.actions c := by
  intro ha
  obtain ⟨d, m, hholds, hm⟩ := Node.stemsFrom c n a ha
  have hkind := h d m hholds
  rw [hsource m hm] at hkind
  cases hkind

end SymbolGraph
