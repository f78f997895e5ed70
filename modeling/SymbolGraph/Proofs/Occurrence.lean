import Mathlib.Data.List.Basic
import SymbolGraph.Proofs.Script

/-!
# `Proofs.Occurrence` — the constructs inside a construct

`Node.children` lists the constructs right inside a construct, each with the class
and the method around it: what a container without a name holds, or a method
outside a class, is left out, as it is never walked.  Constructs stand inside type
specifiers, too: the value of a constant of an enumeration is one.

`Node.Holds c n d m` says that `m` stands somewhere in `n`, at any depth, and that
its context is `d` if that of `n` is `c`.  Whatever is held is walked: its steps are
among the steps of the construct around it (`Node.Holds.subset`).
-/

namespace SymbolGraph

/-! ## Inside specifiers -/

/-- The values of the constants that have a name. -/
def Enumerator.values (constants : List Enumerator) : List Node :=
  constants.flatMap fun
    | ⟨_, some _, value⟩ => value.toList
    | ⟨_, none, _⟩ => []

mutual

def Specifier.values : Specifier → List Node
  | .enum _ enumeration _ => Enumeration.valuesOfOption enumeration
  | _ => []

def Specifier.valuesOfAll : List Specifier → List Node
  | [] => []
  | s :: rest => Specifier.values s ++ Specifier.valuesOfAll rest

def Enumeration.valuesOfOption : Option Enumeration → List Node
  | none => []
  | some ⟨_, _, underlying, constants⟩ =>
      TypeName.valuesOfOption underlying ++ Enumerator.values constants

def TypeName.valuesOfOption : Option TypeName → List Node
  | none => []
  | some ⟨_, specifiers⟩ => Specifier.valuesOfAll specifiers

end

def Ivar.values (ivars : List Ivar) : List Node :=
  ivars.flatMap fun i => Specifier.valuesOfAll i.specifiers

def Parameter.values (parameters : List Parameter) : List Node :=
  parameters.flatMap fun p => Specifier.valuesOfAll p.specifiers

def KeywordDeclarator.values (keywords : List KeywordDeclarator) : List Node :=
  keywords.flatMap fun k => TypeName.valuesOfOption k.typeName

/-- The parameters of a prototype, and the value that a variable is given. -/
def InitDeclarator.values (d : Declaration) : InitDeclarator → List Node
  | ⟨_, some ⟨e, some name, nested, parameters⟩, value⟩ =>
      (if Action.isPrototype d ⟨e, some name, nested, parameters⟩
        then Parameter.values (parameters.getD []) else []) ++ value.toList
  | ⟨_, _, value⟩ => value.toList

def Declaration.values (d : Declaration) : List Node :=
  Specifier.valuesOfAll d.specifiers ++
    d.declarators.flatMap (InitDeclarator.values { d with declarators := [] })

/-- In the header of a loop, no declarator is a prototype. -/
def Declaration.localValues (d : Declaration) : List Node :=
  Specifier.valuesOfAll d.specifiers ++ d.declarators.flatMap (·.value.toList)

def MessageSelector.arguments (s : MessageSelector) : List Node :=
  s.keywords.flatMap (·.argument.toList)

/-! ## Right inside, and at any depth -/

namespace Node

/-- The constructs right inside a construct, each in its context. -/
def children (c : Context) : Node → List (Context × Node)
  | .unit _ items | .compoundStatement _ items | .generic _ _ items => items.map (c, ·)
  | .classInterface _ (some name) _ _ ivars members
  | .categoryInterface _ (some name) _ _ ivars members
  | .classImplementation _ (some name) _ _ ivars members =>
      (Ivar.values ivars ++ members).map ({ c with className := name.text }, ·)
  | .protocolDeclaration _ (some name) _ members =>
      members.map ({ c with className := name.text }, ·)
  | .methodDeclaration _ _ returnType (some s) =>
      if c.className.isSome then
        (TypeName.valuesOfOption returnType ++ KeywordDeclarator.values s.keywords).map (c, ·)
      else []
  | .methodDefinition _ _ returnType (some s) body =>
      if c.className.isSome then
        (TypeName.valuesOfOption returnType ++ KeywordDeclarator.values s.keywords ++
          body.toList).map ({ c with methodName := s.name }, ·)
      else []
  | .propertyDeclaration _ _ specifiers _ =>
      if c.className.isSome then (Specifier.valuesOfAll specifiers).map (c, ·) else []
  | .declaration d => d.values.map (c, ·)
  | .functionDefinition _ specifiers (some ⟨_, some name, _, parameters⟩) body =>
      (Specifier.valuesOfAll specifiers).map (c, ·) ++
        (Parameter.values (parameters.getD []) ++ body.toList).map
          ({ c with methodName := name.text }, ·)
  | .forStatement _ header parts body =>
      (header.toList.flatMap Declaration.localValues ++ parts ++ body.toList).map (c, ·)
  | .catchClause _ parameter body => (Parameter.values parameter.toList ++ body.toList).map (c, ·)
  | .blockExpression _ parameters body => (Parameter.values parameters ++ body.toList).map (c, ·)
  | .memberAccess _ (some (.identifier e name)) _ _ =>
      if e.text = "self" ∨ e.text = "super" then [] else [(c, .identifier e name)]
  | .memberAccess _ receiver _ _ => receiver.toList.map (c, ·)
  | .messageExpression _ receiver selector =>
      (receiver.toList ++ selector.toList.flatMap MessageSelector.arguments).map (c, ·)
  | .castExpression _ typeName operand =>
      (TypeName.valuesOfOption typeName ++ operand.toList).map (c, ·)
  | _ => []

/-- A construct stands in another one, at any depth. -/
inductive Holds : Context → Node → Context → Node → Prop
  | here (c : Context) (n : Node) : Holds c n c n
  | inside {c d e : Context} {n m k : Node} :
      (d, m) ∈ n.children c → Holds d m e k → Holds c n e k

end Node

/-! ## What is held is walked -/

open Node

section Parts

variable {c : Context} {n : Node}

theorem subset_actionsOfOption {o : Option Node} (h : n ∈ o.toList) :
    n.actions c ⊆ actionsOfOption c o := by
  obtain rfl := Option.mem_toList.mp h
  rw [actionsOfOption]
  exact List.Subset.refl _

theorem subset_actionsOfAll : ∀ {ns : List Node}, n ∈ ns → n.actions c ⊆ actionsOfAll c ns
  | [], h => absurd h List.not_mem_nil
  | m :: rest, h => by
      rw [actionsOfAll]
      rcases List.mem_cons.mp h with rfl | h
      · exact List.subset_append_left _ _
      · exact List.subset_append_of_subset_right _ (subset_actionsOfAll h)

theorem subset_enumerators {type : String} : ∀ {constants : List Enumerator},
    n ∈ Enumerator.values constants → n.actions c ⊆ Enumerator.actionsOfAll c type constants
  | [], h => absurd h List.not_mem_nil
  | ⟨e, none, value⟩ :: rest, h => by
      rw [Enumerator.actionsOfAll]
      exact subset_enumerators h
  | ⟨e, some name, value⟩ :: rest, h => by
      rw [Enumerator.actionsOfAll]
      rcases List.mem_append.mp h with h | h
      · intro a ha
        exact List.mem_append_left _ (List.mem_append_right _ (subset_actionsOfOption h ha))
      · exact List.subset_append_of_subset_right _ (subset_enumerators h)

mutual

theorem subset_specifier : ∀ {s : Specifier}, n ∈ s.values → n.actions c ⊆ s.actions c
  | .enum _ enumeration _, h => by
      rw [Specifier.values] at h
      rw [Specifier.actions]
      exact List.subset_append_of_subset_right _ (subset_enumeration h)
  | .named .., h | .primitive .., h | .struct .., h | .other .., h => by
      rw [Specifier.values] at h
      · cases h
      · exact fun _ _ _ => nofun

theorem subset_specifiers : ∀ {specifiers : List Specifier}, n ∈ Specifier.valuesOfAll specifiers →
    n.actions c ⊆ Specifier.actionsOfAll c specifiers
  | [], h => by
      rw [Specifier.valuesOfAll] at h
      cases h
  | s :: rest, h => by
      rw [Specifier.valuesOfAll] at h
      rw [Specifier.actionsOfAll]
      rcases List.mem_append.mp h with h | h
      · exact List.subset_append_of_subset_left _ (subset_specifier h)
      · exact List.subset_append_of_subset_right _ (subset_specifiers h)

theorem subset_enumeration : ∀ {o : Option Enumeration}, n ∈ Enumeration.valuesOfOption o →
    n.actions c ⊆ Enumeration.actionsOfOption c o
  | none, h => by
      rw [Enumeration.valuesOfOption] at h
      cases h
  | some ⟨_, name, underlying, constants⟩, h => by
      rw [Enumeration.valuesOfOption] at h
      rw [Enumeration.actionsOfOption, Enumeration.actions.eq_def]
      rcases List.mem_append.mp h with h | h
      · intro a ha
        exact List.mem_append_left _ (List.mem_append_left _ (subset_typeName h ha))
      · exact List.subset_append_of_subset_right _ (subset_enumerators h)

theorem subset_typeName : ∀ {o : Option TypeName}, n ∈ TypeName.valuesOfOption o →
    n.actions c ⊆ TypeName.actionsOfOption c o
  | none, h => by
      rw [TypeName.valuesOfOption] at h
      cases h
  | some ⟨_, specifiers⟩, h => by
      rw [TypeName.valuesOfOption] at h
      rw [TypeName.actionsOfOption]
      exact subset_specifiers h

end

/-- A list of parts is walked part by part. -/
theorem subset_of_parts {α : Type} {values : α → List Node} {walk : List α → List Action}
    (hhead : ∀ x rest, ∀ n ∈ values x, ∀ a ∈ n.actions c, a ∈ walk (x :: rest))
    (htail : ∀ x rest, ∀ a ∈ walk rest, a ∈ walk (x :: rest)) :
    ∀ {xs : List α}, n ∈ xs.flatMap values → n.actions c ⊆ walk xs
  | [], h => absurd h List.not_mem_nil
  | x :: rest, h => by
      rcases List.mem_append.mp h with h | h
      · exact fun a ha => hhead x rest n h a ha
      · exact fun a ha => htail x rest a (subset_of_parts hhead htail h ha)

theorem subset_ivars {className : String} {ivars : List Ivar} (h : n ∈ Ivar.values ivars) :
    n.actions c ⊆ Ivar.actionsOfAll c className ivars := by
  refine subset_of_parts ?_ ?_ h
  · rintro ⟨_, _, _, _⟩ _ _ hn a ha
    simp [Ivar.actionsOfAll, subset_specifiers hn ha]
  · rintro ⟨_, _, _, _⟩ _ a ha
    simp [Ivar.actionsOfAll, ha]

theorem subset_parameters {parameters : List Parameter} (h : n ∈ Parameter.values parameters) :
    n.actions c ⊆ Parameter.actionsOfAll c parameters := by
  refine subset_of_parts ?_ ?_ h
  · rintro ⟨_, _, _⟩ _ _ hn a ha
    rw [Parameter.actionsOfAll.eq_def]
    simp [subset_specifiers hn ha]
  · rintro ⟨_, _, _⟩ _ a ha
    rw [Parameter.actionsOfAll.eq_def]
    simp [ha]

theorem subset_localParameters {parameters : List Parameter}
    (h : n ∈ Parameter.values parameters) :
    n.actions c ⊆ Parameter.localActionsOfAll c parameters := by
  refine subset_of_parts ?_ ?_ h
  · rintro ⟨_, _, _⟩ _ _ hn a ha
    simp [Parameter.localActionsOfAll, Parameter.localActions, subset_specifiers hn ha]
  · rintro ⟨_, _, _⟩ _ a ha
    simp [Parameter.localActionsOfAll, ha]

theorem subset_prototype {parameters : List Parameter} (h : n ∈ Parameter.values parameters) :
    n.actions c ⊆ Parameter.specifierActionsOfAll c parameters := by
  refine subset_of_parts ?_ ?_ h
  · rintro ⟨_, _, _⟩ _ _ hn a ha
    simp [Parameter.specifierActionsOfAll, subset_specifiers hn ha]
  · rintro ⟨_, _, _⟩ _ a ha
    simp [Parameter.specifierActionsOfAll, ha]

theorem subset_parametersOfOption {parameters : Option (List Parameter)}
    (h : n ∈ Parameter.values (parameters.getD [])) :
    n.actions c ⊆ Parameter.actionsOfOption c parameters := by
  cases parameters with
  | none => cases h
  | some parameters =>
      rw [Parameter.actionsOfOption]
      exact subset_parameters h

theorem subset_localParameter {parameter : Option Parameter}
    (h : n ∈ Parameter.values parameter.toList) :
    n.actions c ⊆ Parameter.localActionsOfOption c parameter := by
  cases parameter with
  | none => cases h
  | some parameter =>
      have hwalked := subset_localParameters (c := c) h
      simpa [Parameter.localActionsOfAll, Parameter.localActionsOfOption] using hwalked

theorem subset_keywordTypes {keywords : List KeywordDeclarator}
    (h : n ∈ KeywordDeclarator.values keywords) :
    n.actions c ⊆ KeywordDeclarator.typeActions c keywords := by
  refine subset_of_parts ?_ ?_ h
  · rintro ⟨_, _, _, _⟩ _ _ hn a ha
    simp [KeywordDeclarator.typeActions, subset_typeName hn ha]
  · rintro ⟨_, _, _, _⟩ _ a ha
    simp [KeywordDeclarator.typeActions, ha]

theorem subset_keywords {method : Key} {keywords : List KeywordDeclarator}
    (h : n ∈ KeywordDeclarator.values keywords) :
    n.actions c ⊆ KeywordDeclarator.actionsOfAll c method keywords := by
  refine subset_of_parts ?_ ?_ h
  · rintro ⟨_, _, _, _⟩ _ _ hn a ha
    rw [KeywordDeclarator.actionsOfAll.eq_def]
    simp [subset_typeName hn ha]
  · rintro ⟨_, _, _, _⟩ _ a ha
    rw [KeywordDeclarator.actionsOfAll.eq_def]
    simp [ha]

theorem subset_declarator {d : Declaration} {i : InitDeclarator} {rest : List InitDeclarator}
    (h : n ∈ i.values d) : n.actions c ⊆ InitDeclarator.actionsOfAll c d (i :: rest) := by
  intro a ha
  obtain ⟨_, declarator, value⟩ := i
  rw [InitDeclarator.actionsOfAll.eq_def]
  dsimp only
  rw [List.append_assoc]
  cases declarator with
  | none => exact List.mem_append_right _ (List.mem_append_left _ (subset_actionsOfOption h ha))
  | some declarator =>
      obtain ⟨e, name, nested, parameters⟩ := declarator
      cases name with
      | none => exact List.mem_append_right _ (List.mem_append_left _ (subset_actionsOfOption h ha))
      | some name =>
          rcases List.mem_append.mp h with h | h
          · refine List.mem_append_left _ (List.mem_append_right _ ?_)
            split at h
            · next hprototype =>
              rw [if_pos hprototype]
              cases parameters with
              | none => cases h
              | some parameters =>
                  rw [Parameter.specifierActionsOfOption]
                  exact subset_prototype h ha
            · cases h
          · exact List.mem_append_right _ (List.mem_append_left _ (subset_actionsOfOption h ha))

theorem subset_declarators {d : Declaration} {declarators : List InitDeclarator}
    (h : n ∈ declarators.flatMap (InitDeclarator.values d)) :
    n.actions c ⊆ InitDeclarator.actionsOfAll c d declarators := by
  refine subset_of_parts (fun _ _ _ hn _ ha => subset_declarator hn ha) ?_ h
  rintro ⟨_, _, _⟩ _ a ha
  rw [InitDeclarator.actionsOfAll.eq_def]
  simp [ha]

theorem subset_localDeclarators {owner : Excerpt} {type : Option String}
    {declarators : List InitDeclarator} (h : n ∈ declarators.flatMap (·.value.toList)) :
    n.actions c ⊆ InitDeclarator.localActionsOfAll c owner type declarators := by
  refine subset_of_parts ?_ ?_ h
  · rintro ⟨_, _, _⟩ _ _ hn a ha
    simp [InitDeclarator.localActionsOfAll, subset_actionsOfOption hn ha]
  · rintro ⟨_, _, _⟩ _ a ha
    simp [InitDeclarator.localActionsOfAll, ha]

theorem subset_header {header : Option Declaration}
    (h : n ∈ header.toList.flatMap Declaration.localValues) :
    n.actions c ⊆ Declaration.localActionsOfOption c header := by
  cases header with
  | none => cases h
  | some d =>
      obtain ⟨e, storage, specifiers, declarators⟩ := d
      rw [Declaration.localActionsOfOption]
      have hm : n ∈ Declaration.localValues ⟨e, storage, specifiers, declarators⟩ := by
        simpa using h
      rcases List.mem_append.mp hm with hm | hm
      · exact List.subset_append_of_subset_left _ (subset_specifiers hm)
      · exact List.subset_append_of_subset_right _ (subset_localDeclarators hm)

theorem subset_arguments {selector : Option MessageSelector}
    (h : n ∈ selector.toList.flatMap MessageSelector.arguments) :
    n.actions c ⊆ MessageSelector.actionsOfOption c selector := by
  cases selector with
  | none => cases h
  | some s =>
      obtain ⟨_, _, keywords⟩ := s
      have hm : n ∈ keywords.flatMap (·.argument.toList) := by
        simpa [MessageSelector.arguments] using h
      rw [MessageSelector.actionsOfOption]
      refine subset_of_parts ?_ ?_ hm
      · rintro ⟨_, _, _⟩ _ _ hn a ha
        simp [KeywordArgument.actionsOfAll, subset_actionsOfOption hn ha]
      · rintro ⟨_, _, _⟩ _ a ha
        simp [KeywordArgument.actionsOfAll, ha]

end Parts

namespace Node

section Children

variable {c d : Context} {m : Node}

theorem mem_inContext {ns : List Node} : (d, m) ∈ ns.map (c, ·) ↔ d = c ∧ m ∈ ns := by
  rw [List.mem_map]
  constructor
  · rintro ⟨_, hm, heq⟩
    cases heq
    exact ⟨rfl, hm⟩
  · rintro ⟨rfl, hm⟩
    exact ⟨m, hm, rfl⟩

theorem subset_methodDeclaration {e : Excerpt} {isClassMethod : Bool}
    {returnType : Option TypeName} {selector : Option Selector}
    (h : (d, m) ∈ children c (.methodDeclaration e isClassMethod returnType selector)) :
    m.actions d ⊆ actions c (.methodDeclaration e isClassMethod returnType selector) := by
  intro a ha
  cases selector with
  | none => cases h
  | some s =>
      rw [children] at h
      split at h
      · next hclass =>
        obtain ⟨className, hclass⟩ := Option.isSome_iff_exists.mp hclass
        obtain ⟨rfl, hm⟩ := mem_inContext.mp h
        rw [actions_methodDeclaration hclass]
        rcases List.mem_append.mp hm with hm | hm
        · simp [subset_typeName hm ha]
        · simp [subset_keywordTypes hm ha]
      · cases h

theorem subset_methodDefinition {e : Excerpt} {isClassMethod : Bool}
    {returnType : Option TypeName} {selector : Option Selector} {body : Option Node}
    (h : (d, m) ∈ children c (.methodDefinition e isClassMethod returnType selector body)) :
    m.actions d ⊆ actions c (.methodDefinition e isClassMethod returnType selector body) := by
  intro a ha
  cases selector with
  | none => cases h
  | some s =>
      rw [children] at h
      split at h
      · next hclass =>
        obtain ⟨className, hclass⟩ := Option.isSome_iff_exists.mp hclass
        obtain ⟨rfl, hm⟩ := mem_inContext.mp h
        rw [actions_methodDefinition hclass]
        rcases List.mem_append.mp hm with hm | hm
        · rcases List.mem_append.mp hm with hm | hm
          · simp [subset_typeName hm ha]
          · have hwalked : a ∈ KeywordDeclarator.actionsOfAll _
                (.member className s.name) s.keywords := subset_keywords hm ha
            simp [hwalked]
        · simp [subset_actionsOfOption hm ha]
      · cases h

theorem subset_functionDefinition {e : Excerpt} {specifiers : List Specifier}
    {declarator : Option Declarator} {body : Option Node}
    (h : (d, m) ∈ children c (.functionDefinition e specifiers declarator body)) :
    m.actions d ⊆ actions c (.functionDefinition e specifiers declarator body) := by
  intro a ha
  match declarator with
  | none | some ⟨_, none, _, _⟩ => cases h
  | some ⟨_, some name, _, parameters⟩ =>
      rcases List.mem_append.mp h with h | h
      · obtain ⟨rfl, hm⟩ := mem_inContext.mp h
        simp [actions, subset_specifiers hm ha]
      · obtain ⟨rfl, hm⟩ := mem_inContext.mp h
        rcases List.mem_append.mp hm with hm | hm
        · have hwalked := subset_parametersOfOption hm ha
          simp [actions, hwalked]
        · have hwalked := subset_actionsOfOption hm ha
          simp [actions, hwalked]

/-- A receiver that is no plain identifier is walked like any other construct. -/
theorem actions_memberAccess {receiver : Option Node}
    (h : ∀ e name, receiver ≠ some (.identifier e name)) {e : Excerpt} {member : Option Excerpt}
    {isArrow : Bool} :
    actions c (.memberAccess e receiver member isArrow) = actionsOfOption c receiver := by
  rw [actions.eq_def]
  dsimp only
  split
  · exact absurd rfl (h _ _)
  · rfl

theorem subset_memberAccess {e : Excerpt} {receiver : Option Node} {member : Option Excerpt}
    {isArrow : Bool} (h : (d, m) ∈ children c (.memberAccess e receiver member isArrow)) :
    m.actions d ⊆ actions c (.memberAccess e receiver member isArrow) := by
  intro a ha
  by_cases hident : ∃ e name, receiver = some (.identifier e name)
  · obtain ⟨e, name, rfl⟩ := hident
    rw [children] at h
    split at h
    · cases h
    · next hself =>
      cases List.mem_singleton.mp h
      rw [actions] at ha
      simp [actions, hself, ha]
  · have hother : ∀ e name, receiver ≠ some (.identifier e name) := fun e name heq =>
      hident ⟨e, name, heq⟩
    rw [children] at h
    · obtain ⟨rfl, hm⟩ := mem_inContext.mp h
      rw [actions_memberAccess hother]
      exact subset_actionsOfOption hm ha
    · exact hother

/-- What is right inside a construct is walked with it: one case for each
construct, by the lemma on the list that the child stands in. -/
theorem subset_of_mem_children {n : Node} (h : (d, m) ∈ n.children c) :
    m.actions d ⊆ n.actions c := by
  intro a ha
  cases n with
  | unit _ items | compoundStatement _ items | generic _ _ items =>
      obtain ⟨rfl, hm⟩ := mem_inContext.mp h
      simp [actions, subset_actionsOfAll hm ha]
  | classInterface _ name _ _ ivars members | categoryInterface _ name _ _ ivars members
  | classImplementation _ name _ _ ivars members =>
      cases name with
      | none => cases h
      | some name =>
          obtain ⟨rfl, hm⟩ := mem_inContext.mp h
          rcases List.mem_append.mp hm with hm | hm
          · have hwalked : a ∈ Ivar.actionsOfAll _ name.text ivars := subset_ivars hm ha
            simp [actions, hwalked]
          · have hwalked := subset_actionsOfAll hm ha
            simp [actions, hwalked]
  | protocolDeclaration _ name _ members =>
      cases name with
      | none => cases h
      | some name =>
          obtain ⟨rfl, hm⟩ := mem_inContext.mp h
          have hwalked := subset_actionsOfAll hm ha
          simp [actions, hwalked]
  | methodDeclaration => exact subset_methodDeclaration h ha
  | methodDefinition => exact subset_methodDefinition h ha
  | propertyDeclaration _ _ specifiers _ =>
      rw [children] at h
      split at h
      · next hclass =>
        obtain ⟨className, hclass⟩ := Option.isSome_iff_exists.mp hclass
        obtain ⟨rfl, hm⟩ := mem_inContext.mp h
        simp only [actions, hclass]
        exact List.mem_append_left _ (subset_specifiers hm ha)
      · cases h
  | declaration decl =>
      obtain ⟨rfl, hm⟩ := mem_inContext.mp h
      obtain ⟨e, storage, specifiers, declarators⟩ := decl
      rw [actions, Declaration.actions]
      rcases List.mem_append.mp hm with hm | hm
      · exact List.mem_append_left _ (subset_specifiers hm ha)
      · exact List.mem_append_right _ (subset_declarators hm ha)
  | functionDefinition => exact subset_functionDefinition h ha
  | forStatement _ header parts body =>
      obtain ⟨rfl, hm⟩ := mem_inContext.mp h
      rcases List.mem_append.mp hm with hm | hm
      · rcases List.mem_append.mp hm with hm | hm
        · simp [actions, subset_header hm ha]
        · simp [actions, subset_actionsOfAll hm ha]
      · simp [actions, subset_actionsOfOption hm ha]
  | catchClause _ parameter body =>
      obtain ⟨rfl, hm⟩ := mem_inContext.mp h
      rcases List.mem_append.mp hm with hm | hm
      · simp [actions, subset_localParameter hm ha]
      · simp [actions, subset_actionsOfOption hm ha]
  | blockExpression _ parameters body =>
      obtain ⟨rfl, hm⟩ := mem_inContext.mp h
      rcases List.mem_append.mp hm with hm | hm
      · simp [actions, subset_localParameters hm ha]
      · simp [actions, subset_actionsOfOption hm ha]
  | memberAccess => exact subset_memberAccess h ha
  | messageExpression _ receiver selector =>
      obtain ⟨rfl, hm⟩ := mem_inContext.mp h
      rw [actions.eq_def]
      rcases List.mem_append.mp hm with hm | hm
      · simp [subset_actionsOfOption hm ha]
      · simp [subset_arguments hm ha]
  | castExpression _ typeName operand =>
      obtain ⟨rfl, hm⟩ := mem_inContext.mp h
      rw [actions]
      rcases List.mem_append.mp hm with hm | hm
      · exact List.mem_append_left _ (subset_typeName hm ha)
      · exact List.mem_append_right _ (subset_actionsOfOption hm ha)
  | inclusion | forwardDeclaration | identifier => cases h

/-- So is what stands inside at any depth. -/
theorem Holds.subset {n : Node} (h : Holds c n d m) : m.actions d ⊆ n.actions c := by
  induction h with
  | here => exact List.Subset.refl _
  | inside hchild _ ih => exact List.Subset.trans ih (subset_of_mem_children hchild)

end Children

end Node

end SymbolGraph
