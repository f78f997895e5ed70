import SymbolGraph.Proofs.Key
import SymbolGraph.Proofs.Script

/-!
# `Proofs.Faithful` — steps that keep to a standard

A STANDARD says what is asked of a name and what of a span: that they are cut from a
source, say, or that they are those of nodes of a tree.  A step is FAITHFUL to a
standard if the names in it meet the standard and stand at the end of its key, unless
they are empty, and all its spans meet it.  The name of a selector is put together from
several places, so of it only the span is asked for; but it is never empty, for it ends
with a colon.

A part of a tree is faithful if all steps that it gives rise to are, wherever it
stands.  So a construct is faithful as soon as its parts are, and no proof here goes
into the depth of a tree.
-/

namespace SymbolGraph

open SymbolGraph.Action

/-- What is asked of the names and of the spans of a tree; a name is good as a span. -/
structure Standard where
  Name : Excerpt → Prop
  Span : Excerpt → Prop
  span_of_name : ∀ {e : Excerpt}, Name e → Span e

variable {std : Standard}

namespace Action

/-- The names and spans in the step meet the standard, and its key ends with its name,
if that is not empty; of a method only the spans are asked for, and that it has a name. -/
def Faithful (std : Standard) : Action → Prop
  | .define ident owner kind key name _ =>
      std.Span ident ∧ std.Span owner ∧
        (kind = .method ∧ name ≠ "" ∧ key.path ≠ "" ∨
          std.Name ident ∧ name = ident.text ∧ (ident.text ≠ "" → key.name = ident.text))
  | .refer occurrence key =>
      std.Name occurrence ∧ (occurrence.text ≠ "" → key.name = occurrence.text)
  | .declareLocal _ ident owner _ _ => std.Name ident ∧ std.Span owner
  | .implement anchor owner key name =>
      std.Span anchor ∧ std.Span owner ∧ name ≠ "" ∧ key.path ≠ ""
  | .read _ occurrence => std.Name occurrence
  | .access _ _ member => std.Name member
  | .send _ _ anchor _ => std.Span anchor
  | _ => True

/-! Steps that name nothing are faithful. -/

section Silent

variable (name path : String) (type : Option String)

@[simp] theorem faithful_openClass : openClass.Faithful std := trivial
@[simp] theorem faithful_openBlock : openBlock.Faithful std := trivial
@[simp] theorem faithful_closeScope : closeScope.Faithful std := trivial
@[simp] theorem faithful_openRoutine : openRoutine.Faithful std := trivial
@[simp] theorem faithful_closeRoutine : closeRoutine.Faithful std := trivial
@[simp] theorem faithful_registerClass : (registerClass name).Faithful std := trivial
@[simp] theorem faithful_addType : (addType name).Faithful std := trivial
@[simp] theorem faithful_addFunction : (addFunction name).Faithful std := trivial
@[simp] theorem faithful_declareMethod : (declareMethod path).Faithful std := trivial
@[simp] theorem faithful_setGlobal : (setGlobal name type).Faithful std := trivial
@[simp] theorem faithful_setMember (className : String) :
    (setMember className name type).Faithful std := trivial
@[simp] theorem faithful_setParameter : (setParameter name type).Faithful std := trivial
@[simp] theorem faithful_inclusion : (inclusion path).Faithful std := trivial
@[simp] theorem faithful_skip (reason : SkipReason) (start : Int) :
    (skip reason start).Faithful std := trivial

end Silent

@[simp] theorem faithful_implement {anchor owner : Excerpt} {key : Key} {name : String} :
    (implement anchor owner key name).Faithful std ↔
      std.Span anchor ∧ std.Span owner ∧ name ≠ "" ∧ key.path ≠ "" := Iff.rfl

theorem faithful_define_method {anchor owner : Excerpt} {key : Key} {name : String}
    (hanchor : std.Span anchor) (howner : std.Span owner) (hname : name ≠ "") (hkey : key.path ≠ "")
    (modifiers : List String) : (define anchor owner .method key name modifiers).Faithful std :=
  ⟨hanchor, howner, Or.inl ⟨rfl, hname, hkey⟩⟩

/-- All steps are faithful. -/
def AllFaithful (std : Standard) (as : List Action) : Prop := ∀ a ∈ as, a.Faithful std

@[simp] theorem allFaithful_nil : AllFaithful std [] := fun _ => nofun

@[simp] theorem allFaithful_cons {a : Action} {as : List Action} :
    AllFaithful std (a :: as) ↔ a.Faithful std ∧ AllFaithful std as := List.forall_mem_cons

@[simp] theorem allFaithful_append {as bs : List Action} :
    AllFaithful std (as ++ bs) ↔ AllFaithful std as ∧ AllFaithful std bs := List.forall_mem_append

theorem allFaithful_flatMap {α : Type} {f : α → List Action} {xs : List α}
    (h : ∀ x ∈ xs, AllFaithful std (f x)) : AllFaithful std (xs.flatMap f) := by
  intro a ha
  obtain ⟨x, hx, ha⟩ := List.mem_flatMap.mp ha
  exact h x hx a ha

theorem faithful_referName {e : Excerpt} (h : std.Name e) : (referName e).Faithful std :=
  ⟨h, Key.name_global⟩

theorem allFaithful_referNames {es : List Excerpt} (h : ∀ e ∈ es, std.Name e) :
    AllFaithful std (es.map referName) := by
  intro a ha
  obtain ⟨e, he, rfl⟩ := List.mem_map.mp ha
  exact faithful_referName (h e he)

variable {ident owner : Excerpt}

theorem faithful_defineName {kind : Kind} {key : Key} (hident : std.Name ident)
    (howner : std.Span owner) (hkey : ident.text ≠ "" → key.name = ident.text) :
    (defineName ident owner kind key).Faithful std :=
  ⟨std.span_of_name hident, howner, Or.inr ⟨hident, rfl, hkey⟩⟩

theorem faithful_defineGlobal (kind : Kind) (hident : std.Name ident) (howner : std.Span owner) :
    (defineName ident owner kind (.global ident.text)).Faithful std :=
  faithful_defineName hident howner Key.name_global

theorem allFaithful_declareVariable (c : Context) (hident : std.Name ident)
    (howner : std.Span owner) (type : Option String) (kind : Option Kind) :
    AllFaithful std (declareVariable c ident owner type kind) := by
  unfold declareVariable
  split
  · exact allFaithful_cons.mpr ⟨⟨hident, howner⟩, allFaithful_nil⟩
  · simpa using faithful_defineName hident howner fun _ => rfl
  · simpa using faithful_defineGlobal _ hident howner

theorem allFaithful_declareBound (c : Context) {declarator : Option Declarator}
    (hname : ∀ d ∈ declarator, ∀ e ∈ d.name, std.Name e) (howner : std.Span owner)
    (type : Option String) : AllFaithful std (declareBound c declarator owner type) := by
  unfold declareBound
  split
  · exact allFaithful_cons.mpr ⟨⟨hname _ rfl _ rfl, howner⟩, allFaithful_nil⟩
  · exact allFaithful_nil

theorem allFaithful_declareOne (c : Context) {d : Declaration} (hident : std.Name ident)
    (howner : std.Span d.excerpt) (declarator : Declarator) :
    AllFaithful std (declareOne c d ident declarator) := by
  have hrefer := faithful_referName hident
  unfold declareOne
  split
  · simpa using faithful_defineGlobal _ hident howner
  · split
    · exact allFaithful_cons.mpr ⟨hident, allFaithful_nil⟩
    · split
      · simpa using hrefer
      · split
        · simpa using hrefer
        · exact allFaithful_declareVariable c hident howner _ none

theorem allFaithful_readIdentifier (c : Context) (hident : std.Name ident) :
    AllFaithful std (readIdentifier c ident) := by
  unfold readIdentifier
  split
  · exact allFaithful_nil
  · split
    · next hself =>
      intro a ha
      obtain ⟨className, -, rfl⟩ := List.mem_map.mp ha
      exact ⟨hident, fun _ => hself.symm⟩
    · exact allFaithful_cons.mpr ⟨hident, allFaithful_nil⟩

end Action

/-! ## Types -/

def Specifier.Faithful (std : Standard) (s : Specifier) : Prop := ∀ c, AllFaithful std (s.actions c)

def TypeName.Faithful (std : Standard) (t : TypeName) : Prop := ∀ s ∈ t.specifiers, s.Faithful std

def Node.Faithful (std : Standard) (n : Node) : Prop := ∀ c, AllFaithful std (n.actions c)

theorem Specifier.allFaithful (c : Context) : ∀ {specifiers : List Specifier},
    (∀ s ∈ specifiers, s.Faithful std) → AllFaithful std (Specifier.actionsOfAll c specifiers)
  | [], _ => by simp [Specifier.actionsOfAll]
  | s :: rest, h => by
      obtain ⟨hs, hrest⟩ := List.forall_mem_cons.mp h
      rw [Specifier.actionsOfAll, allFaithful_append]
      exact ⟨hs c, Specifier.allFaithful c hrest⟩

theorem TypeName.allFaithful (c : Context) {t : Option TypeName} (h : ∀ x ∈ t, x.Faithful std) :
    AllFaithful std (TypeName.actionsOfOption c t) := by
  cases t with
  | none => simp [TypeName.actionsOfOption]
  | some t =>
      obtain ⟨e, specifiers⟩ := t
      rw [TypeName.actionsOfOption]
      exact Specifier.allFaithful c (h _ rfl)

theorem Node.allFaithful (c : Context) : ∀ {nodes : List Node},
    (∀ n ∈ nodes, n.Faithful std) → AllFaithful std (Node.actionsOfAll c nodes)
  | [], _ => by simp [Node.actionsOfAll]
  | n :: rest, h => by
      obtain ⟨hn, hrest⟩ := List.forall_mem_cons.mp h
      rw [Node.actionsOfAll, allFaithful_append]
      exact ⟨hn c, Node.allFaithful c hrest⟩

theorem Node.allFaithful_option (c : Context) {n : Option Node} (h : ∀ x ∈ n, x.Faithful std) :
    AllFaithful std (Node.actionsOfOption c n) := by
  cases n with
  | none => simp [Node.actionsOfOption]
  | some n =>
      rw [Node.actionsOfOption]
      exact h n rfl c

structure Enumerator.Faithful (std : Standard) (e : Enumerator) : Prop where
  excerpt : std.Span e.excerpt
  name : ∀ n ∈ e.name, std.Name n
  value : ∀ n ∈ e.value, n.Faithful std

structure Enumeration.Faithful (std : Standard) (e : Enumeration) : Prop where
  excerpt : std.Span e.excerpt
  name : ∀ n ∈ e.name, std.Name n
  underlying : ∀ t ∈ e.underlying, t.Faithful std
  constants : ∀ k ∈ e.constants, k.Faithful std

theorem Enumerator.allFaithful (c : Context) (type : String) : ∀ {constants : List Enumerator},
    (∀ k ∈ constants, k.Faithful std) →
      AllFaithful std (Enumerator.actionsOfAll c type constants)
  | [], _ => by simp [Enumerator.actionsOfAll]
  | ⟨_, none, _⟩ :: rest, h => by
      rw [Enumerator.actionsOfAll]
      exact Enumerator.allFaithful c type (List.forall_mem_cons.mp h).2
  | ⟨e, some name, value⟩ :: rest, h => by
      obtain ⟨hconstant, hrest⟩ := List.forall_mem_cons.mp h
      rw [Enumerator.actionsOfAll, allFaithful_append, allFaithful_append]
      exact ⟨⟨allFaithful_declareVariable c (hconstant.name name rfl) hconstant.excerpt _ _,
        Node.allFaithful_option c hconstant.value⟩, Enumerator.allFaithful c type hrest⟩

theorem Enumeration.allFaithful (c : Context) {e : Enumeration} (h : e.Faithful std) :
    AllFaithful std (e.actions c) := by
  obtain ⟨excerpt, name, underlying, constants⟩ := e
  rw [Enumeration.actions.eq_def]
  dsimp only
  rw [allFaithful_append, allFaithful_append]
  refine ⟨⟨TypeName.allFaithful c h.underlying, ?_⟩, Enumerator.allFaithful c _ h.constants⟩
  split
  · exact allFaithful_nil
  · simpa using faithful_referName (h.name _ rfl)
  · simpa using faithful_defineGlobal _ (h.name _ rfl) h.excerpt

namespace Specifier

variable {e : Excerpt} {name : Option Excerpt} {protocols : List Excerpt}

theorem faithful_named (hname : ∀ n ∈ name, std.Name n) (hprotocols : ∀ p ∈ protocols, std.Name p) :
    (Specifier.named e name protocols).Faithful std := by
  intro c
  rw [actions, allFaithful_append]
  refine ⟨allFaithful_referNames hprotocols, allFaithful_flatMap fun n hn => ?_⟩
  split
  · exact allFaithful_nil
  · simpa using faithful_referName (hname n (Option.mem_toList.mp hn))

theorem faithful_struct (hname : ∀ n ∈ name, std.Name n)
    (hprotocols : ∀ p ∈ protocols, std.Name p) :
    (Specifier.struct e name protocols).Faithful std := by
  have h := faithful_named (e := e) hname hprotocols
  intro c
  rw [actions]
  simpa only [actions] using h c

theorem faithful_primitive (he : std.Name e) (hprotocols : ∀ p ∈ protocols, std.Name p) :
    (Specifier.primitive e protocols).Faithful std := by
  intro c
  rw [actions, allFaithful_append]
  refine ⟨allFaithful_referNames hprotocols, ?_⟩
  split
  · simpa using faithful_referName he
  · exact allFaithful_nil

theorem faithful_enum {enumeration : Option Enumeration}
    (henumeration : ∀ x ∈ enumeration, x.Faithful std) (hprotocols : ∀ p ∈ protocols, std.Name p) :
    (Specifier.enum e enumeration protocols).Faithful std := by
  intro c
  rw [actions, allFaithful_append]
  refine ⟨allFaithful_referNames hprotocols, ?_⟩
  cases enumeration with
  | none => simp [Enumeration.actionsOfOption]
  | some x =>
      rw [Enumeration.actionsOfOption]
      exact Enumeration.allFaithful c (henumeration x rfl)

theorem faithful_other (hprotocols : ∀ p ∈ protocols, std.Name p) :
    (Specifier.other e protocols).Faithful std := by
  intro c
  rw [actions]
  exact allFaithful_referNames hprotocols

end Specifier

/-! ## Declarations -/

structure Parameter.Faithful (std : Standard) (p : Parameter) : Prop where
  excerpt : std.Span p.excerpt
  specifiers : ∀ s ∈ p.specifiers, s.Faithful std
  name : ∀ d ∈ p.declarator, ∀ e ∈ d.name, std.Name e

structure Declarator.Faithful (std : Standard) (d : Declarator) : Prop where
  name : ∀ e ∈ d.name, std.Name e
  parameters : ∀ ps ∈ d.parameters, ∀ p ∈ ps, p.Faithful std

structure InitDeclarator.Faithful (std : Standard) (i : InitDeclarator) : Prop where
  declarator : ∀ d ∈ i.declarator, d.Faithful std
  value : ∀ n ∈ i.value, n.Faithful std

structure Declaration.Faithful (std : Standard) (d : Declaration) : Prop where
  excerpt : std.Span d.excerpt
  specifiers : ∀ s ∈ d.specifiers, s.Faithful std
  declarators : ∀ i ∈ d.declarators, i.Faithful std

namespace Parameter

theorem allFaithful (c : Context) : ∀ {parameters : List Parameter},
    (∀ p ∈ parameters, p.Faithful std) → AllFaithful std (Parameter.actionsOfAll c parameters)
  | [], _ => by simp [Parameter.actionsOfAll]
  | ⟨e, specifiers, declarator⟩ :: rest, h => by
      obtain ⟨hparameter, hrest⟩ := List.forall_mem_cons.mp h
      rw [Parameter.actionsOfAll.eq_def]
      dsimp only
      rw [allFaithful_append, allFaithful_append]
      refine ⟨⟨Specifier.allFaithful c hparameter.specifiers, ?_⟩, allFaithful c hrest⟩
      split
      · simpa using
          faithful_defineName (hparameter.name _ rfl _ rfl) hparameter.excerpt c.name_key
      · exact allFaithful_nil

theorem allFaithful_local (c : Context) {p : Parameter} (h : p.Faithful std) :
    AllFaithful std (p.localActions c) := by
  obtain ⟨e, specifiers, declarator⟩ := p
  rw [localActions, allFaithful_append]
  exact ⟨Specifier.allFaithful c h.specifiers, allFaithful_declareBound c h.name h.excerpt _⟩

theorem allFaithful_locals (c : Context) : ∀ {parameters : List Parameter},
    (∀ p ∈ parameters, p.Faithful std) → AllFaithful std (Parameter.localActionsOfAll c parameters)
  | [], _ => by simp [Parameter.localActionsOfAll]
  | p :: rest, h => by
      obtain ⟨hp, hrest⟩ := List.forall_mem_cons.mp h
      rw [Parameter.localActionsOfAll, allFaithful_append]
      exact ⟨allFaithful_local c hp, allFaithful_locals c hrest⟩

theorem allFaithful_specifiers (c : Context) : ∀ {parameters : List Parameter},
    (∀ p ∈ parameters, p.Faithful std) →
      AllFaithful std (Parameter.specifierActionsOfAll c parameters)
  | [], _ => by simp [Parameter.specifierActionsOfAll]
  | ⟨e, specifiers, declarator⟩ :: rest, h => by
      obtain ⟨hp, hrest⟩ := List.forall_mem_cons.mp h
      rw [Parameter.specifierActionsOfAll, allFaithful_append]
      exact ⟨Specifier.allFaithful c hp.specifiers, allFaithful_specifiers c hrest⟩

end Parameter

namespace InitDeclarator

theorem allFaithful (c : Context) {d : Declaration} (hd : std.Span d.excerpt) :
    ∀ {declarators : List InitDeclarator}, (∀ i ∈ declarators, i.Faithful std) →
      AllFaithful std (InitDeclarator.actionsOfAll c d declarators)
  | [], _ => by simp [InitDeclarator.actionsOfAll]
  | ⟨e, declarator, value⟩ :: rest, h => by
      obtain ⟨hi, hrest⟩ := List.forall_mem_cons.mp h
      rw [InitDeclarator.actionsOfAll.eq_def]
      dsimp only
      rw [allFaithful_append, allFaithful_append]
      refine ⟨⟨?_, Node.allFaithful_option c hi.value⟩, allFaithful c hd hrest⟩
      split
      · next ident nested parameters =>
        have hdeclarator := hi.declarator _ rfl
        rw [allFaithful_append]
        refine ⟨allFaithful_declareOne c (hdeclarator.name _ rfl) hd _, ?_⟩
        split
        · cases parameters with
          | none => simp [Parameter.specifierActionsOfOption]
          | some ps =>
              rw [Parameter.specifierActionsOfOption]
              exact Parameter.allFaithful_specifiers c (hdeclarator.parameters ps rfl)
        · exact allFaithful_nil
      · exact allFaithful_nil

theorem allFaithful_local (c : Context) {owner : Excerpt} (howner : std.Span owner)
    (type : Option String) : ∀ {declarators : List InitDeclarator},
      (∀ i ∈ declarators, i.Faithful std) →
      AllFaithful std (InitDeclarator.localActionsOfAll c owner type declarators)
  | [], _ => by simp [InitDeclarator.localActionsOfAll]
  | ⟨e, declarator, value⟩ :: rest, h => by
      obtain ⟨hi, hrest⟩ := List.forall_mem_cons.mp h
      rw [InitDeclarator.localActionsOfAll, allFaithful_append, allFaithful_append]
      exact ⟨⟨allFaithful_declareBound c (fun d hd => (hi.declarator d hd).name) howner _,
        Node.allFaithful_option c hi.value⟩, allFaithful_local c howner type hrest⟩

end InitDeclarator

theorem Declaration.allFaithful_local (c : Context) {d : Option Declaration}
    (h : ∀ x ∈ d, x.Faithful std) : AllFaithful std (Declaration.localActionsOfOption c d) := by
  cases d with
  | none => simp [Declaration.localActionsOfOption]
  | some d =>
      have hd := h d rfl
      obtain ⟨e, storage, specifiers, declarators⟩ := d
      rw [Declaration.localActionsOfOption, allFaithful_append]
      exact ⟨Specifier.allFaithful c hd.specifiers,
        InitDeclarator.allFaithful_local c hd.excerpt _ hd.declarators⟩

structure Ivar.Faithful (std : Standard) (i : Ivar) : Prop where
  excerpt : std.Span i.excerpt
  specifiers : ∀ s ∈ i.specifiers, s.Faithful std
  names : ∀ n ∈ i.names, std.Name n

theorem Ivar.allFaithful (c : Context) (className : String) : ∀ {ivars : List Ivar},
    (∀ i ∈ ivars, i.Faithful std) → AllFaithful std (Ivar.actionsOfAll c className ivars)
  | [], _ => by simp [Ivar.actionsOfAll]
  | ⟨e, specifiers, names, visibility⟩ :: rest, h => by
      obtain ⟨hi, hrest⟩ := List.forall_mem_cons.mp h
      rw [Ivar.actionsOfAll, allFaithful_append, allFaithful_append]
      refine ⟨⟨Specifier.allFaithful c hi.specifiers, ?_⟩, Ivar.allFaithful c className hrest⟩
      refine allFaithful_flatMap fun name hname => ?_
      have hident := hi.names name hname
      exact allFaithful_cons.mpr ⟨trivial, allFaithful_cons.mpr
        ⟨⟨std.span_of_name hident, hi.excerpt, Or.inr ⟨hident, rfl, fun _ => rfl⟩⟩,
          allFaithful_nil⟩⟩

/-! ## Selectors -/

theorem Selector.name_ne_empty (s : Selector) : s.name ≠ "" := by
  obtain ⟨e, unary, keywords⟩ := s
  unfold Selector.name
  dsimp only
  split
  · simp
  · simp
  · next hkeywords =>
    cases keywords with
    | nil => exact absurd rfl hkeywords
    | cons k rest => simp

structure KeywordDeclarator.Faithful (std : Standard) (k : KeywordDeclarator) : Prop where
  excerpt : std.Span k.excerpt
  typeName : ∀ t ∈ k.typeName, t.Faithful std
  name : ∀ n ∈ k.name, std.Name n

structure Selector.Faithful (std : Standard) (s : Selector) : Prop where
  anchor : std.Span s.anchor
  keywords : ∀ k ∈ s.keywords, k.Faithful std

structure MessageSelector.Faithful (std : Standard) (s : MessageSelector) : Prop where
  anchor : std.Span s.anchor
  arguments : ∀ k ∈ s.keywords, ∀ n ∈ k.argument, n.Faithful std

namespace KeywordDeclarator

theorem allFaithful_types (c : Context) : ∀ {keywords : List KeywordDeclarator},
    (∀ k ∈ keywords, k.Faithful std) → AllFaithful std (KeywordDeclarator.typeActions c keywords)
  | [], _ => by simp [KeywordDeclarator.typeActions]
  | ⟨e, keyword, typeName, name⟩ :: rest, h => by
      obtain ⟨hk, hrest⟩ := List.forall_mem_cons.mp h
      rw [KeywordDeclarator.typeActions, allFaithful_append]
      exact ⟨TypeName.allFaithful c hk.typeName, allFaithful_types c hrest⟩

theorem allFaithful (c : Context) (method : Key) : ∀ {keywords : List KeywordDeclarator},
    (∀ k ∈ keywords, k.Faithful std) →
      AllFaithful std (KeywordDeclarator.actionsOfAll c method keywords)
  | [], _ => by simp [KeywordDeclarator.actionsOfAll]
  | ⟨e, keyword, typeName, name⟩ :: rest, h => by
      obtain ⟨hk, hrest⟩ := List.forall_mem_cons.mp h
      rw [KeywordDeclarator.actionsOfAll.eq_def]
      dsimp only
      rw [allFaithful_append, allFaithful_append]
      refine ⟨⟨TypeName.allFaithful c hk.typeName, ?_⟩, allFaithful c method hrest⟩
      split
      · exact allFaithful_nil
      · simpa using
          faithful_defineName (hk.name _ rfl) hk.excerpt fun _ => method.name_child _

end KeywordDeclarator

theorem MessageSelector.allFaithful (c : Context) {s : Option MessageSelector}
    (h : ∀ x ∈ s, x.Faithful std) : AllFaithful std (MessageSelector.actionsOfOption c s) := by
  have hall : ∀ {keywords : List KeywordArgument},
      (∀ k ∈ keywords, ∀ n ∈ k.argument, n.Faithful std) →
        AllFaithful std (KeywordArgument.actionsOfAll c keywords) := by
    intro keywords hkeywords
    induction keywords with
    | nil => simp [KeywordArgument.actionsOfAll]
    | cons k rest ih =>
        obtain ⟨e, keyword, argument⟩ := k
        obtain ⟨hk, hrest⟩ := List.forall_mem_cons.mp hkeywords
        rw [KeywordArgument.actionsOfAll, allFaithful_append]
        exact ⟨Node.allFaithful_option c hk, ih hrest⟩
  cases s with
  | none => simp [MessageSelector.actionsOfOption]
  | some s =>
      have hs := (h s rfl).arguments
      obtain ⟨e, unary, keywords⟩ := s
      rw [MessageSelector.actionsOfOption]
      exact hall hs

/-! ## Constructs -/

namespace Node

variable {e : Excerpt} {name : Option Excerpt} {protocols : List Excerpt} {ivars : List Ivar}
  {members items : List Node} {specifiers : List Specifier} {body receiver : Option Node}

theorem faithful_unit (h : ∀ n ∈ items, n.Faithful std) : (Node.unit e items).Faithful std := by
  intro c
  rw [actions]
  exact allFaithful c h

theorem faithful_generic (type : String) (h : ∀ n ∈ items, n.Faithful std) :
    (Node.generic e type items).Faithful std := by
  intro c
  rw [actions]
  exact allFaithful c h

theorem faithful_compoundStatement (h : ∀ n ∈ items, n.Faithful std) :
    (Node.compoundStatement e items).Faithful std := by
  intro c
  simpa [actions] using allFaithful c h

theorem faithful_inclusion (path : String) (system : Bool) (directive : String) :
    (Node.inclusion e path system directive).Faithful std := by
  intro c
  rw [actions]
  split
  · exact allFaithful_nil
  · exact allFaithful_cons.mpr ⟨trivial, allFaithful_nil⟩

section Containers

variable (hname : ∀ n ∈ name, std.Name n) (hivars : ∀ i ∈ ivars, i.Faithful std)
  (hmembers : ∀ n ∈ members, n.Faithful std)
include hname hivars hmembers

theorem faithful_classInterface {superclass : Option Excerpt} (he : std.Span e)
    (hsuperclass : ∀ n ∈ superclass, std.Name n) (hprotocols : ∀ p ∈ protocols, std.Name p) :
    (Node.classInterface e name superclass protocols ivars members).Faithful std := by
  intro c
  cases name with
  | none => simp [actions]
  | some name =>
      have hsupers := allFaithful_referNames fun n hn => hsuperclass n (Option.mem_toList.mp hn)
      simp [actions, hsupers, allFaithful_referNames hprotocols,
        faithful_defineGlobal _ (hname name rfl) he, Ivar.allFaithful _ _ hivars,
        allFaithful _ hmembers]

theorem faithful_categoryInterface {category : Option Excerpt} (he : std.Span e)
    (hcategory : ∀ n ∈ category, std.Name n) (hprotocols : ∀ p ∈ protocols, std.Name p) :
    (Node.categoryInterface e name category protocols ivars members).Faithful std := by
  intro c
  cases name with
  | none => simp [actions]
  | some name =>
      have hcategories : AllFaithful std (category.toList.flatMap fun k =>
          [defineName k e .category (.global k.text), .addType k.text]) := by
        refine allFaithful_flatMap fun k hk => ?_
        simpa using faithful_defineGlobal _ (hcategory k (Option.mem_toList.mp hk)) he
      simp [actions, hcategories, allFaithful_referNames hprotocols,
        faithful_referName (hname name rfl), Ivar.allFaithful _ _ hivars, allFaithful _ hmembers]

theorem faithful_classImplementation {superclass category : Option Excerpt}
    (hsuperclass : ∀ n ∈ superclass, std.Name n) (hcategory : ∀ n ∈ category, std.Name n) :
    (Node.classImplementation e name superclass category ivars members).Faithful std := by
  intro c
  cases name with
  | none => simp [actions]
  | some name =>
      have hsupers := allFaithful_referNames fun n hn => hsuperclass n (Option.mem_toList.mp hn)
      have hcategories := allFaithful_referNames fun n hn => hcategory n (Option.mem_toList.mp hn)
      simp [actions, hsupers, hcategories, faithful_referName (hname name rfl),
        Ivar.allFaithful _ _ hivars, allFaithful _ hmembers]

omit hivars in
theorem faithful_protocolDeclaration (he : std.Span e) (hprotocols : ∀ p ∈ protocols, std.Name p) :
    (Node.protocolDeclaration e name protocols members).Faithful std := by
  intro c
  cases name with
  | none => simp [actions]
  | some name =>
      simp [actions, allFaithful_referNames hprotocols,
        faithful_defineGlobal _ (hname name rfl) he, allFaithful _ hmembers]

end Containers

theorem faithful_forwardDeclaration {names : List Excerpt} (h : ∀ n ∈ names, std.Name n)
    (isProtocol : Bool) : (Node.forwardDeclaration e names isProtocol).Faithful std := by
  intro c
  rw [actions]
  exact allFaithful_referNames h

theorem faithful_methodDeclaration {returnType : Option TypeName} {selector : Option Selector}
    (he : std.Span e) (hreturn : ∀ t ∈ returnType, t.Faithful std)
    (hselector : ∀ s ∈ selector, s.Faithful std) (isClassMethod : Bool) :
    (Node.methodDeclaration e isClassMethod returnType selector).Faithful std := by
  intro c
  rcases hclass : c.className with _ | className
  · rw [actions_methodDeclaration_outside (Or.inl hclass)]
    simp
  · cases selector with
    | none =>
        rw [actions_methodDeclaration_outside (Or.inr rfl)]
        simp
    | some s =>
        have hs := hselector s rfl
        rw [actions_methodDeclaration hclass]
        have hdefine := faithful_define_method hs.anchor he s.name_ne_empty
          (Key.path_member_ne_empty className s.name) []
        simp [hdefine, TypeName.allFaithful c hreturn,
          KeywordDeclarator.allFaithful_types c hs.keywords]

theorem faithful_methodDefinition {returnType : Option TypeName} {selector : Option Selector}
    (he : std.Span e) (hreturn : ∀ t ∈ returnType, t.Faithful std)
    (hselector : ∀ s ∈ selector, s.Faithful std) (hbody : ∀ n ∈ body, n.Faithful std)
    (isClassMethod : Bool) :
    (Node.methodDefinition e isClassMethod returnType selector body).Faithful std := by
  intro c
  rcases hclass : c.className with _ | className
  · rw [actions_methodDefinition_outside (Or.inl hclass)]
    simp
  · cases selector with
    | none =>
        rw [actions_methodDefinition_outside (Or.inr rfl)]
        simp
    | some s =>
        have hs := hselector s rfl
        rw [actions_methodDefinition hclass]
        simp [hs.anchor, he, s.name_ne_empty, Key.path_member_ne_empty,
          TypeName.allFaithful _ hreturn,
          KeywordDeclarator.allFaithful _ _ hs.keywords, allFaithful_option _ hbody]

theorem faithful_propertyDeclaration {names : List Excerpt} (he : std.Span e)
    (hspecifiers : ∀ s ∈ specifiers, s.Faithful std) (hnames : ∀ n ∈ names, std.Name n)
    (attributes : List String) :
    (Node.propertyDeclaration e attributes specifiers names).Faithful std := by
  intro c
  rw [actions]
  split
  · simp
  · rw [allFaithful_append]
    refine ⟨Specifier.allFaithful c hspecifiers, allFaithful_flatMap fun name hname => ?_⟩
    simpa using faithful_defineName (hnames name hname) he fun _ => rfl

theorem faithful_declaration {d : Declaration} (h : d.Faithful std) :
    (Node.declaration d).Faithful std := by
  intro c
  obtain ⟨e, storage, specifiers, declarators⟩ := d
  rw [actions, Declaration.actions, allFaithful_append]
  exact ⟨Specifier.allFaithful c h.specifiers,
    InitDeclarator.allFaithful c (d := ⟨e, storage, specifiers, []⟩) h.excerpt h.declarators⟩

theorem faithful_functionDefinition {declarator : Option Declarator} (he : std.Span e)
    (hspecifiers : ∀ s ∈ specifiers, s.Faithful std)
    (hdeclarator : ∀ d ∈ declarator, d.Faithful std) (hbody : ∀ n ∈ body, n.Faithful std) :
    (Node.functionDefinition e specifiers declarator body).Faithful std := by
  intro c
  rw [actions.eq_def]
  dsimp only
  split
  · next name nested parameters =>
    have hd := hdeclarator _ rfl
    have hparameters : ∀ inner, AllFaithful std (Parameter.actionsOfOption inner parameters) := by
      intro inner
      cases parameters with
      | none => simp [Parameter.actionsOfOption]
      | some ps =>
          rw [Parameter.actionsOfOption]
          exact Parameter.allFaithful inner (hd.parameters ps rfl)
    simp [faithful_defineGlobal _ (hd.name name rfl) he,
      Specifier.allFaithful c hspecifiers, hparameters, allFaithful_option _ hbody]
  · simp

theorem faithful_forStatement {header : Option Declaration}
    (hheader : ∀ d ∈ header, d.Faithful std) (hparts : ∀ n ∈ items, n.Faithful std)
    (hbody : ∀ n ∈ body, n.Faithful std) :
    (Node.forStatement e header items body).Faithful std := by
  intro c
  simp [actions, Declaration.allFaithful_local c hheader, allFaithful c hparts,
    allFaithful_option c hbody]

theorem faithful_catchClause {parameter : Option Parameter}
    (hparameter : ∀ p ∈ parameter, p.Faithful std) (hbody : ∀ n ∈ body, n.Faithful std) :
    (Node.catchClause e parameter body).Faithful std := by
  intro c
  have hlocal : AllFaithful std (Parameter.localActionsOfOption c parameter) := by
    cases parameter with
    | none => simp [Parameter.localActionsOfOption]
    | some p =>
        rw [Parameter.localActionsOfOption]
        exact Parameter.allFaithful_local c (hparameter p rfl)
  simp [actions, hlocal, allFaithful_option c hbody]

theorem faithful_blockExpression {parameters : List Parameter}
    (hparameters : ∀ p ∈ parameters, p.Faithful std) (hbody : ∀ n ∈ body, n.Faithful std) :
    (Node.blockExpression e parameters body).Faithful std := by
  intro c
  simp [actions, Parameter.allFaithful_locals c hparameters,
    allFaithful_option c hbody]

theorem faithful_identifier (h : std.Name (name.getD e)) :
    (Node.identifier e name).Faithful std := by
  intro c
  rw [actions]
  exact allFaithful_readIdentifier c h

theorem faithful_memberAccess {member : Option Excerpt} (hreceiver : ∀ n ∈ receiver, n.Faithful std)
    (hmember : ∀ m ∈ member, std.Name m) (isArrow : Bool) :
    (Node.memberAccess e receiver member isArrow).Faithful std := by
  intro c
  rw [actions.eq_def]
  dsimp only
  split
  · next ident name =>
    have hread : AllFaithful std (readIdentifier c (name.getD ident)) := by
      have hident := hreceiver _ rfl c
      rwa [actions] at hident
    split
    · split
      · next m _ _ =>
        split
        · exact allFaithful_nil
        · exact allFaithful_cons.mpr ⟨⟨hmember _ rfl, fun _ => rfl⟩, allFaithful_nil⟩
      · exact allFaithful_nil
    · rw [allFaithful_append]
      refine ⟨hread, fun a ha => ?_⟩
      obtain ⟨m, hm, rfl⟩ := List.mem_map.mp ha
      exact hmember m (Option.mem_toList.mp hm)
  · exact allFaithful_option c hreceiver

theorem faithful_messageExpression {selector : Option MessageSelector}
    (hreceiver : ∀ n ∈ receiver, n.Faithful std) (hselector : ∀ s ∈ selector, s.Faithful std) :
    (Node.messageExpression e receiver selector).Faithful std := by
  intro c
  rw [actions.eq_def]
  dsimp only
  rw [allFaithful_append, allFaithful_append]
  refine ⟨⟨?_, allFaithful_option c hreceiver⟩, MessageSelector.allFaithful c hselector⟩
  split
  · exact allFaithful_cons.mpr ⟨(hselector _ rfl).anchor, allFaithful_nil⟩
  · exact allFaithful_nil

theorem faithful_castExpression {typeName : Option TypeName}
    (htype : ∀ t ∈ typeName, t.Faithful std) (hoperand : ∀ n ∈ body, n.Faithful std) :
    (Node.castExpression e typeName body).Faithful std := by
  intro c
  simp [actions, TypeName.allFaithful c htype, allFaithful_option c hoperand]

end Node

end SymbolGraph
