import SymbolGraph.Proofs.Environment
import SymbolGraph.Proofs.Locals

/-!
# `Proofs.Resolution` — the names in the body of a function or method

What a name means in a body is a matter of three tiers,

    the key that the environment has for it
    the key of the parameter of the routine
    the member of the class, if there is one, or the bare name

and `Routine.keyOf` is their order.  The environment is that of the lexical semantics: it
comes from in front of the definition (`Node.entering`), through the types in the header,
which may declare constants, into the body.

The parameters are no part of an environment.  The walk keeps them in a map of its own,
and a definition empties the map at its end, so one in the type of a parameter takes the
parameters before it away: here there is none.
-/

namespace SymbolGraph

open SymbolGraph.Action

/-! ## A definition in two parts -/

/-- Into the scope of a routine. -/
def Transfer.enter : Transfer := fun e => (⟨(fun _ => none) :: e.blocks, 0⟩, [])

namespace Denotes

variable {steps : List Action} {f : Transfer} {w : Walker}

theorem env_after (h : Denotes steps f) (hvalid : w.scopes.Valid) :
    (w.after steps).env = (f w.env).1 := by
  rw [h.agrees "" w hvalid]

theorem env_after_enter (h : Denotes steps f) (hvalid : w.scopes.Valid) {e : Env}
    (henv : w.env = e) :
    (w.after (.openRoutine :: steps)).env = (Transfer.enter.andThen f e).1 := by
  subst henv
  refine (h.env_after (Walker.moved_valid hvalid .openRoutine)).trans ?_
  rw [Walker.env_opens rfl hvalid]
  rfl

end Denotes

namespace Node

def isFunction : Node → Bool
  | .functionDefinition .. => true
  | _ => false

def body? : Node → Option Node
  | .functionDefinition _ _ _ body | .methodDefinition _ _ _ _ body => body
  | _ => none

/-- The constructs in the types of the parameters, and of what a method returns. -/
def typeParts : Node → List Node
  | .functionDefinition _ _ (some ⟨_, _, _, parameters⟩) _ => Parameter.values (parameters.getD [])
  | .methodDefinition _ _ returnType (some s) _ =>
      TypeName.valuesOfOption returnType ++ KeywordDeclarator.values s.keywords
  | _ => []

/-- The steps of a definition in front of its body. -/
def header (d : Context) : Node → List Action
  | .functionDefinition e specifiers (some ⟨_, some name, _, parameters⟩) _ =>
      defineName name e .function (.global name.text) :: .addFunction name.text ::
        (Specifier.actionsOfAll d specifiers ++ .openRoutine ::
          Parameter.actionsOfOption { d with methodName := name.text } parameters)
  | .methodDefinition e _ returnType (some s) _ =>
      d.className.toList.flatMap fun className =>
        .implement s.anchor e (.member className s.name) s.name ::
          .addFunction (Key.member className s.name).path :: .openRoutine ::
          (TypeName.actionsOfOption { d with methodName := s.name } returnType ++
            KeywordDeclarator.actionsOfAll { d with methodName := s.name }
              (.member className s.name) s.keywords)
  | _ => []

/-- From in front of a definition into its body. -/
def entering (d : Context) : Node → Transfer
  | .functionDefinition _ specifiers (some ⟨_, some name, _, parameters⟩) _ =>
      (Specifier.denoteAll d specifiers).andThen (Transfer.enter.andThen
        (Parameter.denoteOption { d with methodName := name.text } parameters))
  | .methodDefinition _ _ returnType (some s) _ =>
      Transfer.enter.andThen
        ((TypeName.denoteOption { d with methodName := s.name } returnType).andThen
          (KeywordDeclarator.denoteAll { d with methodName := s.name } s.keywords))
  | _ => .nothing

variable {d : Context} {n : Node} {r : Routine}

theorem actions_eq_header (h : n.routine? d = some r) :
    n.actions d = n.header d ++ (actionsOfOption r.inner n.body? ++ [.closeRoutine]) := by
  obtain ⟨e, specifiers, _, name, _, parameters, body, rfl, rfl⟩ |
    ⟨e, isClassMethod, returnType, s, body, className, rfl, hclass, rfl⟩ := routine?_cases h
  · simp only [actions, header, body?, List.append_assoc, List.cons_append]
  · rw [actions_methodDefinition hclass]
    simp [header, body?, hclass]

/-- In front of the body, the walk shows the environment that goes into it. -/
theorem env_after_header (h : n.routine? d = some r) {w : Walker} (hvalid : w.scopes.Valid) :
    (w.after (n.header d)).env = (n.entering d w.env).1 := by
  obtain ⟨e, specifiers, _, name, _, parameters, body, rfl, rfl⟩ |
    ⟨e, isClassMethod, returnType, s, body, className, rfl, hclass, rfl⟩ := routine?_cases h
  · have outside : Denotes (defineName name e .function (.global name.text) ::
        .addFunction name.text :: Specifier.actionsOfAll d specifiers) _ :=
      .silentCons rfl (.silentCons rfl (Specifier.denotesAll d specifiers))
    have inside := Parameter.denotesOption { d with methodName := name.text } parameters
    rw [header, entering, ← List.cons_append, ← List.cons_append, Walker.after_append]
    exact inside.env_after_enter (Walker.after_valid hvalid _) (outside.env_after hvalid)
  · simp only [header, entering, hclass, Option.toList_some, List.flatMap_singleton]
    have inside := (TypeName.denotesOption { d with methodName := s.name } returnType).append
      (KeywordDeclarator.denotesAll { d with methodName := s.name } (.member className s.name)
        s.keywords)
    rw [hclass] at inside
    exact inside.env_after_enter hvalid rfl

end Node

/-! ## The parameters in front of the body -/

/-- Steps that come from no definition leave the parameters alone. -/
theorem Traced.untouched {c : Context} {n : Node} {steps : List Action} {parts : List Node}
    (h : Traced c n steps parts) (hself : n.isDefinition = false)
    (hparts : ∀ m ∈ parts, m.Lacks c Node.isDefinition) :
    ∀ a ∈ steps, a.touchesParameters = false := by
  intro a ha
  have hsource : ∃ m : Node, m.isDefinition = false ∧ a.Source c m := by
    rcases h a ha with hown | ⟨m, hm, e, k, hholds, hsource⟩
    · exact ⟨n, hself, hown⟩
    · exact ⟨k, hparts m hm e k hholds, hsource⟩
  obtain ⟨m, hm, hsource⟩ := hsource
  cases a with
  | openRoutine | closeRoutine | setParameter =>
      rw [show m.isDefinition = true from hsource] at hm
      cases hm
  | _ => rfl

namespace Walker

variable {c : Context} {w : Walker} {name : String}

/-- The name is that of a parameter. -/
def HasParameter (w : Walker) (name : String) : Prop := (w.parameters.get? name).isSome

theorem hasParameter_set (w : Walker) (parameter : String) (type : Option String) (b : Action)
    (hb : b.touchesParameters = false) :
    (w.after [.setParameter parameter type, b]).HasParameter name ↔
      name = parameter ∨ w.HasParameter name := by
  have hafter : (w.after [.setParameter parameter type, b]).parameters =
      w.parameters.set parameter type :=
    parameters_after (List.forall_mem_singleton.mpr hb) ((setParameter parameter type).moved w)
  rw [HasParameter, hafter, Dict.get?_set]
  split
  · next heq => simp [heq]
  · next hne => simp [HasParameter, Ne.symm hne]

theorem hasParameter_untouched {steps : List Action}
    (h : ∀ a ∈ steps, a.touchesParameters = false) :
    (w.after steps).HasParameter name ↔ w.HasParameter name := by
  rw [HasParameter, parameters_after h, HasParameter]

/-- The parameters of a function are those that have a name. -/
theorem hasParameter_parameters : ∀ {parameters : List Parameter} {w : Walker},
    (∀ m ∈ Parameter.values parameters, m.Lacks c Node.isDefinition) →
    ((w.after (Parameter.actionsOfAll c parameters)).HasParameter name ↔
      name ∈ (parameters.filterMap fun p => p.declarator.bind (·.name)).map (·.text) ∨
        w.HasParameter name)
  | [], w, _ => by
      rw [Parameter.actionsOfAll]
      simp [after]
  | ⟨e, specifiers, declarator⟩ :: rest, w, hparts => by
      obtain ⟨hfirst, hrest⟩ := List.forall_mem_append.mp hparts
      have htype := (Specifier.tracedOfAll c (.unit {} []) specifiers).untouched rfl hfirst
      rw [Parameter.actionsOfAll.eq_def]
      dsimp only
      rw [after_append, after_append, hasParameter_parameters hrest]
      match declarator with
      | none | some ⟨_, none, _, _⟩ =>
          rw [after, List.foldl_nil, hasParameter_untouched htype]
          simp
      | some ⟨_, some ident, _, _⟩ =>
          rw [hasParameter_set _ _ _ _ rfl, hasParameter_untouched htype]
          simp [or_assoc, or_left_comm]

/-- So are those of a method. -/
theorem hasParameter_keywords {method : Key} : ∀ {keywords : List KeywordDeclarator} {w : Walker},
    (∀ m ∈ KeywordDeclarator.values keywords, m.Lacks c Node.isDefinition) →
    ((w.after (KeywordDeclarator.actionsOfAll c method keywords)).HasParameter name ↔
      name ∈ (keywords.filterMap (·.name)).map (·.text) ∨ w.HasParameter name)
  | [], w, _ => by
      rw [KeywordDeclarator.actionsOfAll]
      simp [after]
  | ⟨e, keyword, typeName, ident⟩ :: rest, w, hparts => by
      obtain ⟨hfirst, hrest⟩ := List.forall_mem_append.mp hparts
      have htype := (TypeName.tracedOfOption c (.unit {} []) typeName).untouched rfl hfirst
      rw [KeywordDeclarator.actionsOfAll.eq_def]
      dsimp only
      rw [after_append, after_append, hasParameter_keywords hrest]
      cases ident with
      | none =>
          rw [after, List.foldl_nil, hasParameter_untouched htype]
          simp
      | some ident =>
          rw [hasParameter_set _ _ _ _ rfl, hasParameter_untouched htype]
          simp [or_assoc, or_left_comm]

end Walker

/-- In front of the body, the parameters are those of the routine. -/
theorem Node.hasParameter_header {d : Context} {n : Node} {r : Routine}
    (h : n.routine? d = some r) (hparts : ∀ m ∈ n.typeParts, m.Lacks r.inner Node.isDefinition)
    (w : Walker) (name : String) :
    (w.after (n.header d)).HasParameter name ↔ name ∈ r.parameters.map (·.text) := by
  -- A routine starts with none.
  have hnone : ∀ v : Walker, ¬ (openRoutine.moved v).HasParameter name := fun _ => nofun
  obtain ⟨e, specifiers, _, ident, _, parameters, body, rfl, rfl⟩ |
    ⟨e, isClassMethod, returnType, s, body, className, rfl, hclass, rfl⟩ := routine?_cases h
  · have hafter : ∀ v : Walker, (v.after (.openRoutine :: Parameter.actionsOfOption
        { d with methodName := ident.text } parameters)).HasParameter name ↔
          name ∈ ((parameters.getD []).filterMap fun p => p.declarator.bind (·.name)).map
            (·.text) := by
      intro v
      cases parameters with
      | none =>
          rw [Parameter.actionsOfOption]
          exact iff_of_false (hnone v) List.not_mem_nil
      | some parameters =>
          rw [Parameter.actionsOfOption]
          exact (Walker.hasParameter_parameters hparts).trans (or_iff_left (hnone v))
    rw [header, ← List.cons_append, ← List.cons_append, Walker.after_append]
    exact hafter _
  · obtain ⟨htypes, hkeywords⟩ := List.forall_mem_append.mp hparts
    have hreturn := (TypeName.tracedOfOption _ (.unit {} []) returnType).untouched rfl htypes
    simp only [header, hclass, Option.toList_some, List.flatMap_singleton]
    rw [hclass] at hreturn hkeywords
    rw [← List.cons_append, ← List.cons_append, ← List.cons_append, Walker.after_append]
    refine (Walker.hasParameter_keywords hkeywords).trans (or_iff_left ?_)
    intro hhas
    exact hnone _ ((Walker.hasParameter_untouched hreturn).mp hhas)

/-! ## The names of the body -/

/-- The key of a name in the body of a routine, with the key that the environment has for
it, if any, and the tables of the moment. -/
def Routine.keyOf (r : Routine) (t : Symbols) (name : String) : Option Key → Key
  | some key => key
  | none =>
      if name ∈ r.parameters.map (·.text) then r.parameterKey name
      else match r.inner.className, t.member? r.inner.className name with
        | some className, some _ => .member className name
        | _, _ => .global name

/-- What the walk writes for a name that is bound or used in the body of a routine: a
definition under its key, or a reference to the key of its tier. -/
def Routine.Writes (r : Routine) (file : String) (a : Act) : Sighting → Prop
  | .bound ident key => ∃ owner kind, ∀ t,
      a.emissions t = Emission.define file ident owner kind key ident.text []
  | .used occurrence key => ∀ t,
      a.emissions t = [.refer file occurrence (r.keyOf t occurrence.text key)]

/-- The step declares a local name or reads a name. -/
def Action.isSighting : Action → Bool
  | .declareLocal .. | .read .. => true
  | _ => false

theorem Act.isSome_sighting? (a : Act) : a.sighting?.isSome = a.action.isSighting := by
  obtain ⟨file, w, action⟩ := a
  cases action <;> rfl

theorem Act.forall₂_sightings {R : Act → Sighting → Prop} : ∀ {acts : List Act},
    (∀ a ∈ acts, ∀ s, a.sighting? = some s → R a s) →
      List.Forall₂ R (acts.filter (·.action.isSighting)) (acts.filterMap Act.sighting?)
  | [], _ => .nil
  | a :: rest, h => by
      obtain ⟨ha, hrest⟩ := List.forall_mem_cons.mp h
      rw [List.filter_cons, List.filterMap_cons, ← a.isSome_sighting?]
      cases hs : a.sighting? with
      | none => exact forall₂_sightings hrest
      | some s => exact .cons (ha s hs) (forall₂_sightings hrest)

/-- A parameter is defined under the key by which it is found. -/
theorem Node.key_eq_parameterKey {d : Context} {n : Node} {r : Routine}
    (h : n.routine? d = some r) (hclass : n.isFunction = true ∨ d.className ≠ some "")
    {name : String} (hname : name ≠ "") : r.inner.key name = r.parameterKey name := by
  obtain ⟨_, _, _, _, _, _, _, rfl, rfl⟩ | ⟨_, _, _, s, _, className, rfl, heq, rfl⟩ :=
    routine?_cases h
  · rfl
  · have hclassName : className ≠ "" := by
      rintro rfl
      exact (hclass.resolve_left nofun) heq
    simp [Context.key, Key.of, Key.child, Key.member, heq, hclassName, hname, s.name_ne_empty,
      Option.filter]

/-- With the parameters of a routine, a walk resolves a name by the tiers of the routine. -/
theorem Walker.resolve_eq_keyOf {r : Routine} {w : Walker} {name : String}
    (hparameters : w.HasParameter name ↔ name ∈ r.parameters.map (·.text))
    (hkey : name ∈ r.parameters.map (·.text) → r.inner.key name = r.parameterKey name)
    (t : Symbols) :
    w.resolve t r.inner name = r.keyOf t name ((w.scopes.lookup name).map (·.key)) := by
  unfold resolve Routine.keyOf
  cases w.scopes.lookup name with
  | some b => rfl
  | none =>
      rw [HasParameter] at hparameters
      cases hget : w.parameters.get? name with
      | some type =>
          have hmem := hparameters.mp (by rw [hget]; rfl)
          exact (hkey hmem).trans (if_pos hmem).symm
      | none =>
          have hmem : name ∉ r.parameters.map (·.text) := fun hmem => by
            have hsome := hparameters.mpr hmem
            rw [hget] at hsome
            cases hsome
          exact (if_neg hmem).symm

/-- A body without definitions and classes opens neither, and leaves the parameters alone. -/
theorem Node.body_steps {c : Context} {body : Option Node}
    (h : ∀ m ∈ body, m.Lacks c Node.isDefinition ∧ m.Lacks c Node.isContainer) :
    ∀ a ∈ actionsOfOption c body, a.touchesParameters = false ∧
      a ≠ .openClass ∧ a ≠ .openRoutine := by
  cases body with
  | none =>
      rw [actionsOfOption]
      exact List.forall_mem_nil _
  | some m =>
      obtain ⟨hdefinition, hcontainer⟩ := h m rfl
      rw [actionsOfOption]
      intro a ha
      refine ⟨hdefinition.touches_no_parameters a ha, ?_, ?_⟩
      · rintro rfl
        exact hcontainer.not_mem (fun _ => id) ha
      · rintro rfl
        exact hdefinition.not_mem (fun _ => id) ha

/-- In the body of a function or method, names are bound and found as lexical scoping has
them: in order, each declaration defines its name under the key that the environment gets,
and each name that is read refers to the key that the environment has for it, else to the
parameter of that name, else to the member of the class, else to the bare name. -/
theorem Routine.body_writes_lexical_keys {d : Context} {n : Node} {r : Routine}
    (hroutine : n.routine? d = some r) (hclass : n.isFunction = true ∨ d.className ≠ some "")
    (hnames : ∀ p ∈ r.parameters, p.text ≠ "")
    (hheader : ∀ m ∈ n.typeParts, m.Lacks r.inner Node.isDefinition)
    (hbody : ∀ m ∈ n.body?, m.Lacks r.inner Node.isDefinition ∧ m.Lacks r.inner Node.isContainer)
    (file : String) (front : List Action) :
    let w := ({} : Walker).after front
    let acts := Act.ofActions file (Node.actionsOfOption r.inner n.body?) (w.after (n.header d))
    n.actions d = n.header d ++ (Node.actionsOfOption r.inner n.body? ++ [.closeRoutine]) ∧
    (∀ p ∈ r.parameters, ∃ owner,
      defineName p owner .parameter (r.parameterKey p.text) ∈ n.actions d) ∧
    List.Forall₂ (r.Writes file) (acts.filter (·.action.isSighting))
      (Node.denoteOption r.inner n.body? (n.entering d w.env).1).2 := by
  intro w acts
  refine ⟨Node.actions_eq_header hroutine, fun p => Node.exists_of_mem_parameters hroutine, ?_⟩
  have hvalid : w.scopes.Valid := Walker.after_valid Scopes.initial_valid front
  have hvalid' := Walker.after_valid hvalid (n.header d)
  have hagrees := (Node.denotesOption r.inner n.body?).agrees file _ hvalid'
  rw [Node.env_after_header hroutine hvalid] at hagrees
  rw [hagrees]
  have hsteps := Node.body_steps hbody
  refine Act.forall₂_sightings fun a ha s hs => ?_
  obtain ⟨before, after, heq, hfile, hwalker⟩ := Act.exists_of_mem_ofActions ha
  obtain ⟨_, v, action⟩ := a
  dsimp only at heq hfile hwalker
  subst hfile hwalker
  have hmem : action ∈ Node.actionsOfOption r.inner n.body? := heq ▸ by simp
  cases action with
  | declareLocal c ident owner kind type =>
      cases hs
      exact ⟨owner, kind, fun _ => rfl⟩
  | read c occurrence =>
      cases hs
      obtain rfl : c = r.inner := (Node.scriptOfOption r.inner n.body?).context_of_flat
        (fun b hb => (hsteps b hb).2) _ hmem c rfl
      have hbefore : ∀ b ∈ before, b.touchesParameters = false := fun b hb =>
        (hsteps b (heq ▸ List.mem_append_left _ hb)).1
      have hparameters := (Walker.hasParameter_untouched hbefore).trans
        (Node.hasParameter_header hroutine hheader w occurrence.text)
      intro t
      refine congrArg (fun key => [Emission.refer _ occurrence key])
        (Walker.resolve_eq_keyOf hparameters (fun hparameter => ?_) t)
      obtain ⟨p, hp, hname⟩ := List.mem_map.mp hparameter
      exact Node.key_eq_parameterKey hroutine hclass (hname ▸ hnames p hp)
  | _ => cases hs

/-! Examples: a block with a name of its own, and a definition in the type of a parameter.

    void f(int p) { { char x; x; } x; p; }
    void f(int p, enum { A = void g() { … } } q) { p; }
-/

def Node.readName (name : String) : Node := .identifier ⟨name, 0, 0⟩ none

def Parameter.typed (specifier : Specifier) (name : String) : Parameter :=
  ⟨{}, [specifier], some ⟨{}, some ⟨name, 0, 0⟩, false, none⟩⟩

def Node.functionF (parameters : List Parameter) (items : List Node) : Node :=
  .functionDefinition {} [.primitive ⟨"void", 0, 0⟩ []]
    (some ⟨{}, some ⟨"f", 0, 0⟩, false, some parameters⟩) (some (.compoundStatement {} items))

def Node.scoped : Node :=
  .functionF [.typed (.primitive ⟨"int", 0, 0⟩ []) "p"] [.shadowing, .readName "x", .readName "p"]

def Node.crowded : Node :=
  .functionF [.typed (.primitive ⟨"int", 0, 0⟩ []) "p",
    .typed (.enum {} (some ⟨{}, none, none, [⟨{}, some ⟨"A", 0, 0⟩, some .nested⟩]⟩) []) "q"]
    [.readName "p"]

def Routine.ofF (parameters : List Excerpt) : Routine :=
  ⟨.global "f", .inF, Context.key .inF, parameters⟩

theorem Node.body_lacks {items : List Node} {kind : Node → Bool}
    (hself : kind (.compoundStatement {} items) = false) (hitems : ∀ m ∈ items, m.Lacks .inF kind)
    (parameters : List Parameter) :
    ∀ m ∈ (Node.functionF parameters items).body?, m.Lacks .inF kind := by
  rintro m ⟨⟩
  refine .of_children hself fun p hp => ?_
  obtain ⟨k, hk, rfl⟩ := List.mem_map.mp hp
  exact hitems k hk

theorem Node.readName_lacks {kind : Node → Bool} {name : String}
    (h : kind (.readName name) = false) : (Node.readName name).Lacks .inF kind :=
  .of_children h (List.forall_mem_nil _)

theorem Routine.body_writes_lexical_keys_scoped :
    Node.scoped.routine? {} = some (.ofF [⟨"p", 0, 0⟩]) ∧
    (∀ m ∈ Node.scoped.body?, m.Lacks .inF Node.isDefinition ∧ m.Lacks .inF Node.isContainer) ∧
    List.Forall₂ (Routine.Writes (.ofF [⟨"p", 0, 0⟩]) "a.m")
      ((Act.ofActions "a.m" (Node.actionsOfOption .inF Node.scoped.body?)
        (({} : Walker).after (Node.scoped.header {}))).filter (·.action.isSighting))
      [.bound ⟨"x", 0, 0⟩ ⟨["f", "x"], 2⟩, .used ⟨"x", 0, 0⟩ (some ⟨["f", "x"], 2⟩),
        .used ⟨"x", 0, 0⟩ none, .used ⟨"p", 0, 0⟩ none] := by
  have hlacks : ∀ {kind : Node → Bool},
      kind (.compoundStatement {} [.shadowing, .readName "x", .readName "p"]) = false →
      Node.shadowing.Lacks .inF kind → (∀ name, kind (.readName name) = false) →
      ∀ m ∈ Node.scoped.body?, m.Lacks .inF kind := by
    intro kind hself hblock hread
    refine Node.body_lacks hself (List.forall_mem_cons.mpr ⟨hblock, ?_⟩) _
    exact List.forall_mem_cons.mpr ⟨Node.readName_lacks (hread _),
      List.forall_mem_singleton.mpr (Node.readName_lacks (hread _))⟩
  have hbody : ∀ m ∈ Node.scoped.body?,
      m.Lacks .inF Node.isDefinition ∧ m.Lacks .inF Node.isContainer := fun m hm =>
    ⟨hlacks rfl (Node.shadowing_lacks rfl rfl rfl) (fun _ => rfl) m hm,
      hlacks rfl (Node.shadowing_lacks rfl rfl rfl) (fun _ => rfl) m hm⟩
  obtain ⟨-, -, hwrites⟩ := body_writes_lexical_keys (n := .scoped) (d := {}) rfl (Or.inl rfl)
    (List.forall_mem_singleton.mpr (by decide)) (List.forall_mem_nil _) hbody "a.m" []
  exact ⟨rfl, hbody, hwrites⟩

/-- The definition of `g` takes the parameter `p` away: where the body reads it, the bare
name is referred to. -/
theorem Routine.crowded_body_loses_parameter :
    Node.crowded.routine? {} = some (.ofF [⟨"p", 0, 0⟩, ⟨"q", 0, 0⟩]) ∧
    (∀ m ∈ Node.crowded.body?, m.Lacks .inF Node.isDefinition ∧ m.Lacks .inF Node.isContainer) ∧
    defineName ⟨"p", 0, 0⟩ {} .parameter ⟨["f", "p"], 0⟩ ∈ Node.crowded.actions {} ∧
    ((Act.ofActions "a.m" (Node.actionsOfOption .inF Node.crowded.body?)
      (({} : Walker).after (Node.crowded.header {}))).filter (·.action.isSighting)).flatMap
        (·.emissions {}) = [.refer "a.m" ⟨"p", 0, 0⟩ (.global "p")] := by
  refine ⟨rfl, fun m hm => ⟨?_, ?_⟩, by decide, by decide⟩
  · exact Node.body_lacks rfl (List.forall_mem_singleton.mpr (Node.readName_lacks rfl)) _ m hm
  · exact Node.body_lacks rfl (List.forall_mem_singleton.mpr (Node.readName_lacks rfl)) _ m hm

end SymbolGraph
