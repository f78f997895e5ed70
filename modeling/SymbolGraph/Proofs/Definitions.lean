import SymbolGraph.Proofs.Occurrence
import SymbolGraph.Proofs.Process

/-!
# `Proofs.Definitions` — which definitions a run stores

Only the body of a method looks at the tables before it writes a definition, and
it writes none if the method was announced.  So the definitions that a run
writes do depend on what is known at its start; those that STAND at its end do
not:

    an announcement is followed by the definition of the method      `Announced`
    hence where a body is silent, because of an announcement to come,
      a later definition stands under its path anyway               `lastUnder_definitions`
    and where it is silent, because of an earlier one,
      the definition under its path was written before              `exists_definition_iff`

The first gives the same definitions with and without a collecting pass; both
together give the paths that are stored, from the trees alone.
-/

namespace SymbolGraph

open Step

namespace Act

theorem definitions_cons (t : Symbols) (a : Act) (rest : List Act) :
    definitions t (a :: rest) =
      (a.emissions t).filterMap Emission.definition? ++ definitions (a.action.declared t) rest :=
  List.filterMap_append

/-- The paths under which an act writes: the one it finds, unless that is a method
announced before. -/
theorem exists_definition_emissions {a : Act} {t : Symbols} {path : String} :
    (∃ d ∈ (a.emissions t).filterMap Emission.definition?, d.key.path = path) ↔
      ¬ a.IsAnnounced t ∧ a.action.definedPath? a.walker.block = some path := by
  classical
  rw [definitions_emissions, ← candidate?_path]
  by_cases h : a.IsAnnounced t
  · simp [h]
  · simp [h]

theorem exists_definition_cons {a : Act} {rest : List Act} {t : Symbols} {path : String} :
    (∃ d ∈ definitions t (a :: rest), d.key.path = path) ↔
      (¬ a.IsAnnounced t ∧ a.action.definedPath? a.walker.block = some path) ∨
        ∃ d ∈ definitions (a.action.declared t) rest, d.key.path = path := by
  rw [definitions_cons, ← exists_definition_emissions]
  simp only [List.mem_append, or_and_right, exists_or]

theorem definitions_append (t : Symbols) (as bs : List Act) :
    definitions t (as ++ bs) = definitions t as ++ definitions (declareAll as t) bs := by
  rw [definitions, emitAll_append, List.filterMap_append]
  rfl

/-- Whatever is written was found by one of the acts. -/
theorem exists_act_of_mem_definitions {acts : List Act} {t : Symbols} {d : Definition}
    (h : d ∈ definitions t acts) :
    ∃ a ∈ acts, a.action.definedPath? a.walker.block = some d.key.path := by
  obtain ⟨before, a, after, rfl, hwritten⟩ :=
    mem_emitAll.mp (Emission.mem_filterMap_definition?.mp h)
  refine ⟨a, List.mem_append_right _ List.mem_cons_self, ?_⟩
  exact (exists_definition_emissions.mp
    ⟨d, Emission.mem_filterMap_definition?.mpr hwritten, rfl⟩).2

/-- A step that defines a path does so with any tables. -/
theorem exists_definition_of_defines {path : String} : ∀ {acts : List Act} {t : Symbols},
    (∃ a ∈ acts, a.action.Defines path) → ∃ d ∈ definitions t acts, d.key.path = path
  | [], _, ⟨_, h, _⟩ => absurd h List.not_mem_nil
  | a :: rest, t, ⟨b, hb, hdef⟩ => by
      rw [exists_definition_cons]
      rcases List.mem_cons.mp hb with rfl | hb
      · obtain ⟨ident, owner, kind, key, name, modifiers, haction, rfl⟩ := hdef
        refine Or.inl ⟨?_, ?_⟩
        · rintro ⟨p, hp, -⟩
          rw [haction] at hp
          cases hp
        · rw [haction]
          rfl
      · exact Or.inr (exists_definition_of_defines ⟨b, hb, hdef⟩)

/-- What is announced is defined. -/
theorem exists_definition_of_declares {path : String} {acts : List Act} {t : Symbols}
    (hannounced : Announced (acts.map Act.action))
    (h : ∃ a ∈ acts, a.action = .declareMethod path) :
    ∃ d ∈ definitions t acts, d.key.path = path := by
  obtain ⟨a, ha, haction⟩ := h
  have hmem : .declareMethod path ∈ acts.map Act.action := List.mem_map.mpr ⟨a, ha, haction⟩
  obtain ⟨d, hd, hdef⟩ := hannounced.exists_defines hmem
  obtain ⟨b, hb, rfl⟩ := List.mem_map.mp hd
  exact exists_definition_of_defines ⟨b, hb, hdef⟩

/-! ## The definitions that stand -/

theorem definedPath?_of_implemented {a : Action} {path : String}
    (h : a.implemented? = some path) (block : Nat) : a.definedPath? block = some path := by
  cases a with
  | implement => exact h
  | _ => cases h

/-- What one act leaves under a path, with two tables that agree on it if it is a
method whose body the act finds. -/
theorem lastUnder_emissions {a : Act} {t u : Symbols} {path : String}
    (hle : a.IsAnnounced t → a.IsAnnounced u)
    (hsame : a.action.implemented? = some path → a.IsAnnounced u → a.IsAnnounced t) :
    Definition.lastUnder path ((a.emissions t).filterMap Emission.definition?) =
      Definition.lastUnder path ((a.emissions u).filterMap Emission.definition?) := by
  classical
  by_cases hu : a.IsAnnounced u
  · by_cases ht : a.IsAnnounced t
    · rw [definitions_emissions, definitions_emissions, if_pos hu, if_pos ht]
    · -- Written with the first tables only, and under another path.
      have hnone : ∀ v, Definition.lastUnder path
          ((a.emissions v).filterMap Emission.definition?) = none := by
        intro v
        rw [← Option.not_isSome_iff_eq_none, Definition.lastUnder_isSome,
          exists_definition_emissions]
        rintro ⟨hsilent, hpath⟩
        obtain ⟨q, hq, -⟩ := id hu
        rw [definedPath?_of_implemented hq] at hpath
        exact ht (hsame (hpath ▸ hq) hu)
      rw [hnone t, hnone u]
  · rw [definitions_emissions, definitions_emissions, if_neg hu, if_neg fun ht => hu (hle ht)]

/-- The definitions that stand are the same with more tables at the start, if all
that they add is announced by the acts. -/
theorem lastUnder_definitions (path : String) : ∀ (acts : List Act) {t u : Symbols},
    Announced (acts.map Act.action) →
    (∀ p ∈ t.declaredMethods, p ∈ u.declaredMethods) →
    (∀ p ∈ u.declaredMethods, p ∈ t.declaredMethods ∨ ∃ a ∈ acts, a.action = .declareMethod p) →
    Definition.lastUnder path (definitions t acts) =
      Definition.lastUnder path (definitions u acts) := by
  intro acts
  induction acts with
  | nil => exact fun _ _ _ => rfl
  | cons a rest ih =>
      intro t u hannounced hle hnew
      have hrest : Definition.lastUnder path (definitions (a.action.declared t) rest) =
          Definition.lastUnder path (definitions (a.action.declared u) rest) := by
        refine ih hannounced.2 (fun p hp => ?_) fun p hp => ?_
        · rw [mem_declared] at hp ⊢
          exact hp.imp_right (hle p)
        · rw [mem_declared] at hp ⊢
          rcases hp with hp | hp
          · exact Or.inl (Or.inl hp)
          · rcases hnew p hp with hp | ⟨b, hb, haction⟩
            · exact Or.inl (Or.inr hp)
            · rcases List.mem_cons.mp hb with rfl | hb
              · exact Or.inl (Or.inl haction)
              · exact Or.inr ⟨b, hb, haction⟩
      rw [definitions_cons, definitions_cons, Definition.lastUnder_append,
        Definition.lastUnder_append, hrest]
      cases hlater : Definition.lastUnder path (definitions (a.action.declared u) rest) with
      | some d => rfl
      | none =>
          refine lastUnder_emissions (fun ⟨p, hp, hmem⟩ => ⟨p, hp, hle p hmem⟩) ?_
          rintro himpl ⟨p, hp, hmem⟩
          obtain rfl : path = p := Option.some.inj (himpl.symm.trans hp)
          rcases hnew path hmem with hmem | ⟨b, hb, haction⟩
          · exact ⟨path, hp, hmem⟩
          · -- Announced later on, so something stands under the path.
            rcases List.mem_cons.mp hb with rfl | hb
            · rw [haction] at himpl
              cases himpl
            · have hsome := Definition.lastUnder_isSome.mpr
                (exists_definition_of_declares (t := a.action.declared u) hannounced.2
                  ⟨b, hb, haction⟩)
              rw [hlater] at hsome
              cases hsome

/-! ## The paths that are stored -/

/-- Under every path that the acts find, something is written, if the tables hold
no announcement at the start but those that the acts make. -/
theorem exists_definition_iff {path : String} {acts : List Act} {t : Symbols}
    (hannounced : Announced (acts.map Act.action))
    (hknown : ∀ p ∈ t.declaredMethods, ∃ a ∈ acts, a.action = .declareMethod p) :
    (∃ d ∈ definitions t acts, d.key.path = path) ↔
      ∃ a ∈ acts, a.action.definedPath? a.walker.block = some path := by
  constructor
  · rintro ⟨d, hd, rfl⟩
    exact exists_act_of_mem_definitions hd
  · rintro ⟨a, ha, hpath⟩
    obtain ⟨before, after, rfl⟩ := List.append_of_mem ha
    by_cases hsilent : a.IsAnnounced (declareAll before t)
    · -- The body of a method announced before: the announcement wrote the definition.
      obtain ⟨p, hp, hmem⟩ := hsilent
      rw [definedPath?_of_implemented hp] at hpath
      cases hpath
      refine exists_definition_of_declares hannounced ?_
      rcases mem_declareAll.mp hmem with ⟨b, hb, haction⟩ | hmem
      · exact ⟨b, List.mem_append_left _ hb, haction⟩
      · exact hknown _ hmem
    · obtain ⟨d, hd, hpath⟩ := exists_definition_emissions.mpr ⟨hsilent, hpath⟩
      rw [Emission.mem_filterMap_definition?] at hd
      have hwritten := mem_emitAll.mpr ⟨before, a, after, rfl, hd⟩
      exact ⟨d, Emission.mem_filterMap_definition?.mpr hwritten, hpath⟩

end Act

/-- The paths under which some steps write definitions, from a block on. -/
def Action.definedPaths : Nat → List Action → List String
  | _, [] => []
  | block, a :: rest => (a.definedPath? block).toList ++ definedPaths (a.nextBlock block) rest

namespace Action

/-- A step that writes under one path in all blocks. -/
theorem mem_definedPaths {a : Action} {path : String}
    (h : ∀ block, a.definedPath? block = some path) :
    ∀ {as : List Action} {block : Nat}, a ∈ as → path ∈ definedPaths block as
  | b :: rest, block, ha => by
      rw [definedPaths]
      rcases List.mem_cons.mp ha with rfl | ha
      · exact List.mem_append_left _ (by simp [h])
      · exact List.mem_append_right _ (mem_definedPaths h ha)

/-- The step follows an inclusion. -/
def isInclusion : Action → Bool
  | .inclusion _ => true
  | _ => false

theorem definedPaths_filter : ∀ (as : List Action) (block : Nat),
    definedPaths block (as.filter (!·.isInclusion)) = definedPaths block as
  | [], _ => rfl
  | a :: rest, block => by
      by_cases ha : a.isInclusion = true
      · rw [List.filter_cons_of_neg (by simp [ha])]
        cases a with
        | inclusion path => exact definedPaths_filter rest block
        | _ => cases ha
      · rw [List.filter_cons_of_pos (by simp [ha]), definedPaths, definedPaths,
          definedPaths_filter rest]

end Action

namespace Node

/-- The paths that a tree defines. -/
def definedPaths (tree : Node) : List String := Action.definedPaths 0 (tree.actions {})

/-- The steps of a tree, its inclusions left out. -/
def ownActions (tree : Node) : List Action := (tree.actions {}).filter (!·.isInclusion)

theorem definedPaths_eq (tree : Node) : tree.definedPaths = Action.definedPaths 0 tree.ownActions :=
  (Action.definedPaths_filter _ _).symm

/-- The selector of a method, declared or with a body. -/
def selector? : Node → Option Selector
  | .methodDeclaration _ _ _ selector | .methodDefinition _ _ _ selector _ => selector
  | _ => none

/-- A method of a class is defined under the class and its selector, wherever it
stands in the tree and whether it has a body or not. -/
theorem method_mem_definedPaths {tree n : Node} {c : Context} {selector : Selector}
    {className : String} (hholds : Holds {} tree c n) (hselector : n.selector? = some selector)
    (hclass : c.className = some className) :
    className ++ "/" ++ selector.name ∈ tree.definedPaths := by
  have hkey : (Key.member className selector.name).path = className ++ "/" ++ selector.name := rfl
  cases n with
  | methodDeclaration e _ returnType _ =>
      cases hselector
      have hmem : .define selector.anchor e .method (.member className selector.name)
          selector.name [] ∈ tree.actions {} := by
        apply hholds.subset
        rw [actions_methodDeclaration hclass]
        exact List.mem_cons_of_mem _ List.mem_cons_self
      refine Action.mem_definedPaths ?_ hmem
      exact fun _ => congrArg some hkey
  | methodDefinition e _ returnType _ body =>
      cases hselector
      have hmem : .implement selector.anchor e (.member className selector.name) selector.name ∈
          tree.actions {} := by
        apply hholds.subset
        rw [actions_methodDefinition hclass]
        exact List.mem_cons_self
      refine Action.mem_definedPaths ?_ hmem
      exact fun _ => congrArg some hkey
  | _ => cases hselector

end Node

theorem Task.definedPaths_ofActions (file : String) : ∀ (as : List Action) (w : Walker),
    ((ofActions file as w).filterMap act?).filterMap
      (fun a => a.action.definedPath? a.walker.block) = Action.definedPaths w.block as
  | [], _ => by simp [ofActions, Action.definedPaths]
  | a :: rest, w => by
      by_cases ha : ∃ path, a = .inclusion path
      · obtain ⟨path, rfl⟩ := ha
        exact definedPaths_ofActions file rest w
      · rw [ofActions_cons file (fun path hpath => ha ⟨path, hpath⟩)]
        have ih := definedPaths_ofActions file rest (a.moved w)
        rw [moved_block] at ih
        rw [Action.definedPaths, ← ih, List.filterMap_cons, Task.act?, List.filterMap_cons]
        cases a.definedPath? w.block <;> rfl

namespace Session

variable {s : Session} {paths : List String} {steps : List Step} {run : Run} {report : Report}

theorem exists_act_iff {file path : String} :
    (∃ a ∈ s.acts file, a.action.definedPath? a.walker.block = some path) ↔
      ∃ tree, s.tree? file = some tree ∧ path ∈ tree.definedPaths := by
  unfold acts tasks
  cases s.tree? file with
  | none => simp
  | some tree =>
      have hpaths := Task.definedPaths_ofActions file (tree.actions {}) {}
      rw [← List.mem_filterMap, hpaths]
      simp [Node.definedPaths]

/-- The paths of a file do not depend on what it includes. -/
theorem exists_tree_iff {file path : String} :
    (∃ tree, s.tree? file = some tree ∧ path ∈ tree.definedPaths) ↔
      ∃ as, (s.tree? file).map Node.ownActions = some as ∧ path ∈ Action.definedPaths 0 as := by
  cases s.tree? file with
  | none => simp
  | some tree => simp [Node.definedPaths_eq]

/-- What is known at the start of the emitting pass will be announced again. -/
theorem declares_of_known {acts : List Act} {path : String}
    (h : path ∈ (s.known acts).declaredMethods) : ∃ a ∈ acts, a.action = .declareMethod path := by
  unfold known at h
  split at h
  · exact (Act.mem_declareAll.mp h).resolve_right List.not_mem_nil
  · exact absurd h List.not_mem_nil

/-- The stored paths are those that the trees of the files define. -/
theorem Finished.isSome_get?_iff (h : s.Finished steps run report) (htour : s.Tour paths steps)
    (path : String) : (run.store.get? path).isSome ↔
      ∃ file ∈ s.configured paths, ∃ tree, s.tree? file = some tree ∧ path ∈ tree.definedPaths := by
  rw [h.isSome_get?, Act.exists_definition_iff htour.announced fun _ => declares_of_known]
  simp only [← exists_act_iff, htour.mem_acts]
  constructor
  · rintro ⟨a, ⟨file, hfile, ha⟩, hpath⟩
    exact ⟨file, hfile, a, ha, hpath⟩
  · rintro ⟨file, hfile, a, ha, hpath⟩
    exact ⟨a, ⟨file, hfile, ha⟩, hpath⟩

/-- The paths that a run stores are computed from the tree of each configured file
alone: every method of a class is among them, and neither the order of the files,
nor their inclusions, nor the number of passes matter. -/
theorem stored_paths_compositional (hdone : s.process paths {} = .done run report) :
    (∀ path, (run.store.get? path).isSome ↔ ∃ file ∈ s.configured paths,
      ∃ tree, s.tree? file = some tree ∧ path ∈ tree.definedPaths) ∧
    (∀ file ∈ s.configured paths, ∀ tree, s.tree? file = some tree →
      ∀ c n selector className, Node.Holds {} tree c n → n.selector? = some selector →
        c.className = some className →
          className ++ "/" ++ selector.name ∈ tree.definedPaths ∧
          (run.store.get? (className ++ "/" ++ selector.name)).isSome) ∧
    ∀ (other : Session) (paths' : List String) (run' : Run) (report' : Report),
      other.process paths' {} = .done run' report' →
      (∀ file, file ∈ other.configured paths' ↔ file ∈ s.configured paths) →
      (∀ file ∈ s.configured paths,
        (other.tree? file).map Node.ownActions = (s.tree? file).map Node.ownActions) →
      ∀ path, (run'.store.get? path).isSome = (run.store.get? path).isSome := by
  obtain ⟨steps, htour, hfinished⟩ := process_done hdone
  have hstored := hfinished.isSome_get?_iff htour
  refine ⟨hstored, ?_, ?_⟩
  · intro file hfile tree htree c n selector className hholds hselector hclass
    have hmem := Node.method_mem_definedPaths hholds hselector hclass
    exact ⟨hmem, (hstored _).mpr ⟨file, hfile, tree, htree, hmem⟩⟩
  · intro other paths' run' report' hdone' hfiles htrees path
    obtain ⟨steps', htour', hfinished'⟩ := process_done hdone'
    have hsame : ∀ file ∈ s.configured paths,
        (∃ tree, other.tree? file = some tree ∧ path ∈ tree.definedPaths) ↔
          ∃ tree, s.tree? file = some tree ∧ path ∈ tree.definedPaths := by
      intro file hfile
      rw [exists_tree_iff, exists_tree_iff, htrees file hfile]
    rw [Bool.eq_iff_iff, hfinished'.isSome_get?_iff htour', hstored]
    constructor
    · rintro ⟨file, hfile, htree⟩
      have hfile := (hfiles file).mp hfile
      exact ⟨file, hfile, (hsame file hfile).mp htree⟩
    · rintro ⟨file, hfile, htree⟩
      exact ⟨file, (hfiles file).mpr hfile, (hsame file hfile).mpr htree⟩

/-! Two files that include each other: one declares a class, with a member and a
method, the other implements the method and has a global variable of the class. -/

def declaringTree : Node :=
  .unit {} [
    .inclusion {} "user.m" false "include",
    .classInterface {} (some ⟨"Foo", 0, 2⟩) none []
      [⟨{}, [.primitive ⟨"int", 4, 6⟩ []], [⟨"count", 8, 12⟩], none⟩]
      [.methodDeclaration {} false none (some ⟨{}, some ⟨"run", 20, 22⟩, []⟩)]]

def runMethod : Node :=
  .methodDefinition {} false none (some ⟨{}, some ⟨"run", 60, 62⟩, []⟩)
    (some (.memberAccess {} (some (.identifier ⟨"shared", 70, 75⟩ none))
      (some ⟨"count", 77, 81⟩) true))

def usingTree : Node :=
  .unit {} [
    .inclusion {} "foo.h" false "include",
    .declaration ⟨{}, [], [.named {} (some ⟨"Foo", 30, 32⟩) []],
      [⟨{}, some ⟨{}, some ⟨"shared", 35, 40⟩, false, none⟩, none⟩]⟩,
    .classImplementation {} (some ⟨"Foo", 50, 52⟩) none none [] [runMethod]]

def mutualUnit : Session where
  root := ⟨.root, ["unit"]⟩
  twoPass := true
  sizeLimit := 1000
  sources :=
    { size := fun _ => .ok 100
      read := fun _ => .ok default
      parse := fun _ path =>
        ([], .ok ⟨if path = "foo.h" then declaringTree else usingTree, []⟩) }

theorem mutualUnit_done (paths : List String) :
    ∃ run report, mutualUnit.process paths {} = .done run report :=
  (mutualUnit.process_done_iff paths).mpr fun _ _ ⟨_, h⟩ => by cases h

theorem stored_paths_compositional_mutual :
    ∃ run report, mutualUnit.process ["foo.h", "user.m"] {} = .done run report ∧
      (run.store.get? "shared").isSome ∧ (run.store.get? "Foo/run:").isSome ∧
      (run.store.get? "Foo/stop:").isSome = false := by
  obtain ⟨run, report, hdone⟩ := mutualUnit_done ["foo.h", "user.m"]
  obtain ⟨hstored, hmethods, -⟩ := stored_paths_compositional hdone
  refine ⟨run, report, hdone, ?_, ?_, ?_⟩
  · exact (hstored "shared").mpr ⟨"user.m", by decide, usingTree, rfl, by decide⟩
  · -- The body in `user.m` stands in the class `Foo`.
    have hholds : Node.Holds {} usingTree ⟨some "Foo", none⟩ runMethod :=
      .inside (.tail _ (.tail _ (.head _))) (.inside (.head _) (.here _ _))
    exact (hmethods "user.m" (by decide) usingTree rfl _ _ _ _ hholds rfl rfl).2
  · rw [Bool.eq_false_iff, ne_eq, hstored]
    rintro ⟨file, hfile, tree, htree, hpath⟩
    have hfiles : mutualUnit.configured ["foo.h", "user.m"] = ["foo.h", "user.m"] := by decide
    rw [hfiles] at hfile
    rcases List.mem_pair.mp hfile with rfl | rfl
    · cases htree
      exact absurd hpath (by decide)
    · cases htree
      exact absurd hpath (by decide)

/-! A unit where one file parses, one does not and one is too large. -/

def mixedUnit : Session :=
  { mutualUnit with
    sources := { mutualUnit.sources with
      size := fun path => .ok (if path = "big.m" then 2000 else 100)
      parse := fun bytes path =>
        if path = "bad.m" then ([], .error (.raised "refused"))
        else mutualUnit.sources.parse bytes path } }

theorem mixedUnit_done (paths : List String) :
    ∃ run report, mixedUnit.process paths {} = .done run report := by
  refine (mixedUnit.process_done_iff paths).mpr fun file _ ⟨reason, hcontent⟩ => ?_
  have hread : mixedUnit.readFile file = .ok default ∨
      ∃ reason, mixedUnit.readFile file = .error (.failed reason) := by
    by_cases hbig : file = "big.m"
    · exact Or.inr ⟨_, by subst hbig; rfl⟩
    · refine Or.inl ?_
      simp [readFile, mixedUnit, mutualUnit, hbig]
  rcases hread with hread | ⟨failure, hread⟩
  · rw [content, hread] at hcontent
    dsimp only at hcontent
    split at hcontent <;> cases hcontent
  · rw [content, hread] at hcontent
    cases hcontent

/-! ## One pass or two -/

/-- Whether declarations are collected first makes no difference to whether a run
is done, nor to the definitions that it stores. -/
theorem passes_store_same_definitions (s : Session) (paths : List String) :
    match ({ s with twoPass := false } : Session).process paths {},
        ({ s with twoPass := true } : Session).process paths {} with
    | .done one _, .done two _ =>
        (∀ path, one.store.get? path = two.store.get? path) ∧
          one.store.definitions.Perm two.store.definitions
    | .halted _ _, .halted _ _ => True
    | _, _ => False := by
  have hone := ({ s with twoPass := false } : Session).process_done_iff paths
  have htwo := ({ s with twoPass := true } : Session).process_done_iff paths
  have hiff := hone.trans htwo.symm
  cases h : ({ s with twoPass := false } : Session).process paths {} with
  | done one report =>
      obtain ⟨two, report', h'⟩ := hiff.mp ⟨one, report, h⟩
      obtain ⟨steps, htour, hfinished⟩ := process_done h
      obtain ⟨more, htour', hfinished'⟩ := process_done h'
      obtain rfl := Tour.unique (htour.withPasses true) htour'
      have hget : ∀ path, one.store.get? path = two.store.get? path := by
        intro path
        rw [hfinished.get?, hfinished'.get?]
        refine Act.lastUnder_definitions path _ htour.announced (fun _ => nofun) fun p hp => ?_
        exact Or.inr ((Act.mem_declareAll.mp hp).resolve_right List.not_mem_nil)
      rw [h']
      exact ⟨hget, Store.definitions_perm hfinished.distinct hfinished'.distinct hget⟩
  | halted one e =>
      cases h' : ({ s with twoPass := true } : Session).process paths {} with
      | done two report =>
          obtain ⟨_, _, hdone⟩ := hiff.mpr ⟨two, report, h'⟩
          rw [h] at hdone
          cases hdone
      | halted two e' => trivial

end Session

end SymbolGraph
