import Mathlib.Data.List.TakeWhile
import SymbolGraph.Proofs.Definitions
import SymbolGraph.Proofs.Key
import SymbolGraph.Proofs.Lexical

/-!
# `Proofs.Locals` — from the reading of a local to its definition

The key of a local has the number of its block in it, to keep locals of one name apart.
That number counts the blocks that were OPENED before, and does not go back when a block
is closed.  So the steps of a body fall into STRETCHES, from one opening of a block to
the next, and two locals of one name

    share their key    if they stand in one stretch, even in two blocks
    have two keys      if a block is opened between them

The store keeps the last definition under a key.  A name that is read, and bound to a
local, leads to the last local of that name in the stretch of the one it is bound to:
to that one itself, unless another follows before the next block is opened.
-/

namespace SymbolGraph

open SymbolGraph.Action

/-! ## The body of a routine -/

/-- The path of a local in some block. -/
def Context.IsLocalPath (c : Context) (path : String) : Prop :=
  ∃ (name : String) (block : Nat), 0 < block ∧ path = ((c.key name).inBlock block).path

/-- The step writes no definition under the path of a local. -/
def Action.KeepsOff (c : Context) (a : Action) : Prop :=
  ∀ block path, a.definedPath? block = some path → ¬ c.IsLocalPath path

/-- The construct is, in the context `d`, the definition of a function or a method; its
body has these items, and the context `c`. -/
inductive Node.IsRoutine (d : Context) : Node → Context → List Node → Prop
  | function (e : Excerpt) (specifiers : List Specifier) (e' name : Excerpt) (nested : Bool)
      (parameters : Option (List Parameter)) (e'' : Excerpt) (items : List Node) :
      IsRoutine d (.functionDefinition e specifiers (some ⟨e', some name, nested, parameters⟩)
        (some (.compoundStatement e'' items))) { d with methodName := name.text } items
  | method {className : String} (hclass : d.className = some className) (e : Excerpt)
      (isClassMethod : Bool) (returnType : Option TypeName) (selector : Selector) (e'' : Excerpt)
      (items : List Node) :
      IsRoutine d (.methodDefinition e isClassMethod returnType (some selector)
        (some (.compoundStatement e'' items))) { d with methodName := selector.name } items

theorem Node.IsRoutine.actions_eq {c d : Context} {n : Node} {items : List Node}
    (h : n.IsRoutine d c items) : ∃ front, n.actions d =
      front ++ .openBlock :: (Node.actionsOfAll c items ++ [.closeScope, .closeRoutine]) := by
  cases h with
  | function e specifiers e' name nested parameters e'' items =>
      refine ⟨[.defineName name e .function (.global name.text), .addFunction name.text] ++
        (Specifier.actionsOfAll d specifiers ++ [.openRoutine] ++
        Parameter.actionsOfOption { d with methodName := name.text } parameters), ?_⟩
      simp [Node.actions, Node.actionsOfOption]
  | @method className hclass e isClassMethod returnType selector e'' items =>
      refine ⟨[.implement selector.anchor e (.member className selector.name) selector.name,
        .addFunction (Key.member className selector.name).path, .openRoutine] ++
        (TypeName.actionsOfOption { d with methodName := selector.name } returnType ++
        KeywordDeclarator.actionsOfAll { d with methodName := selector.name }
          (.member className selector.name) selector.keywords), ?_⟩
      rw [Node.actions_methodDefinition hclass]
      simp [Node.actionsOfOption, Node.actions]

/-- A file has a routine with these items for its body, and no class or other routine
inside the body.  What else the body defines, a type for example, and what the file
defines behind the routine has none of the paths that the locals of the body may have. -/
structure Node.HasBody (tree : Node) (c : Context) (items : List Node) : Prop where
  placed : ∃ (front : List Action) (n : Node) (d : Context) (back : List Action),
    tree.actions {} = front ++ (n.actions d ++ back) ∧ n.IsRoutine d c items ∧
      ∀ a ∈ back, a.KeepsOff c
  flat : ∀ a ∈ Node.actionsOfAll c items, a ≠ .openClass ∧ a ≠ .openRoutine
  others : ∀ a ∈ Node.actionsOfAll c items, a.local? = none → a.KeepsOff c

/-- Only a local's path depends on the block. -/
theorem Action.definedPath?_of_local?_eq_none {a : Action} (h : a.local? = none) (m n : Nat) :
    a.definedPath? m = a.definedPath? n := by
  cases a with
  | declareLocal => cases h
  | _ => rfl

/-- The context in which a step declares or looks up a name. -/
def Action.context? : Action → Option Context
  | .declareLocal c .. | .read c _ | .access c .. | .send c .. => some c
  | _ => none

theorem Action.IsPlain.context_eq {c : Context} {a : Action} (h : a.IsPlain c) :
    ∀ d ∈ a.context?, d = c := by
  intro d hd
  cases a with
  | declareLocal | read | access | send =>
      obtain rfl := Option.some.inj hd
      exact h
  | _ => cases hd

/-- Where no class and no routine is opened, all names belong to one context. -/
theorem Script.context_of_flat {c : Context} {as : List Action} (h : Script c as)
    (hflat : ∀ a ∈ as, a ≠ .openClass ∧ a ≠ .openRoutine) :
    ∀ a ∈ as, ∀ d ∈ a.context?, d = c := by
  induction h with
  | nil => exact fun _ => nofun
  | append _ _ iha ihb =>
      obtain ⟨hfirst, hsecond⟩ := List.forall_mem_append.mp hflat
      exact List.forall_mem_append.mpr ⟨iha hfirst, ihb hsecond⟩
  | plain ha => exact List.forall_mem_singleton.mpr ha.context_eq
  | @entered _ a _ hentries _ hb =>
      refine List.forall_mem_cons.mpr ⟨?_, List.forall_mem_singleton.mpr hb.context_eq⟩
      cases a with
      | declareLocal | read | access | send => exact absurd rfl hentries
      | _ => exact fun _ => nofun
  | recorded ha _ hb =>
      refine List.forall_mem_cons.mpr ⟨hb.context_eq, List.forall_mem_singleton.mpr ?_⟩
      rcases ha with rfl | rfl <;> exact fun _ => nofun
  | classScope => exact absurd rfl (hflat .openClass (by simp)).1
  | routine => exact absurd rfl (hflat _ List.mem_cons_self).2
  | block _ ih =>
      obtain ⟨-, hinside⟩ := List.forall_mem_cons.mp hflat
      refine List.forall_mem_cons.mpr ⟨fun _ => nofun, List.forall_mem_append.mpr
        ⟨ih (List.forall_mem_append.mp hinside).1, List.forall_mem_singleton.mpr fun _ => nofun⟩⟩

namespace Node.HasBody

variable {tree : Node} {c : Context} {items : List Node} (h : tree.HasBody c items)
include h

theorem context_eq {d : Context} {ident owner : Excerpt} {kind : Kind} {type : Option String}
    (hlocal : .declareLocal d ident owner kind type ∈ Node.actionsOfAll c items) : d = c :=
  (Node.scriptOfAll c items).context_of_flat h.flat _ hlocal d rfl

/-- In a body, the path of a local is written to by the locals of its name, in the blocks
of its number, and by nothing else. -/
theorem definedPath?_iff {a : Action} (ha : a ∈ Node.actionsOfAll c items) {name : String}
    {n m : Nat} (hn : 0 < n) (hm : 0 < m) :
    a.definedPath? m = some ((c.key name).inBlock n).path ↔ a.declares name = true ∧ m = n := by
  cases hlocal : a.local? with
  | none =>
      constructor
      · intro hpath
        exact absurd ⟨name, n, hn, rfl⟩ (h.others a ha hlocal m _ hpath)
      · rintro ⟨hdeclares, -⟩
        rw [declares, hlocal] at hdeclares
        cases hdeclares
  | some _ =>
      cases a with
      | declareLocal d ident owner kind type =>
          obtain rfl := h.context_eq ha
          have hpath : (declareLocal d ident owner kind type).definedPath? m =
              some ((d.key ident.text).inBlock m).path := rfl
          rw [hpath, Option.some_inj, d.local_path_inj hm hn]
          simp [declares, local?]
      | _ => cases hlocal

end Node.HasBody

/-! ## The last local of a stretch -/

/-- Of the locals of a name that are declared before another block is opened, the last
one; the first one given if there is none. -/
def Action.lastOfStretch (name : String) (first : Excerpt) (steps : List Action) : Excerpt :=
  (((steps.takeWhile (· ≠ .openBlock)).filterMap local?).filter (·.text = name)).getLastD first

/-- The name, and where it stands. -/
def Definition.site (d : Definition) : String × String × Int × Int :=
  (d.name, d.file, d.identStart, d.identStop)

namespace Act

theorem lastUnder_eq_none {acts : List Act} {t : Symbols} {path : String}
    (h : ∀ a ∈ acts, a.action.definedPath? a.walker.block ≠ some path) :
    Definition.lastUnder path (definitions t acts) = none := by
  rw [← Option.not_isSome_iff_eq_none, Definition.lastUnder_isSome]
  rintro ⟨d, hd, rfl⟩
  obtain ⟨a, ha, hpath⟩ := exists_act_of_mem_definitions hd
  exact h a ha hpath

theorem lastUnder_of_keepsOff (file : String) {c : Context} {steps : List Action}
    (h : ∀ a ∈ steps, a.KeepsOff c) (name : String) {n : Nat} (hn : 0 < n) (t : Symbols)
    (w : Walker) : Definition.lastUnder ((c.key name).inBlock n).path
      (definitions t (ofActions file steps w)) = none := by
  refine lastUnder_eq_none fun a ha hpath => ?_
  obtain ⟨_, _, rfl, -⟩ := exists_of_mem_ofActions ha
  exact h a.action (List.mem_append_right _ List.mem_cons_self) _ _ hpath ⟨name, n, hn, rfl⟩

/-- What one act leaves under the path of a local. -/
theorem lastUnder_of_declares {a : Act} {t : Symbols} {name path : String}
    (h : a.action.definedPath? a.walker.block = some path ↔ a.action.declares name = true) :
    (Definition.lastUnder path ((a.emissions t).filterMap Emission.definition?)).map
        Definition.site =
      (a.action.local?.filter (·.text = name)).map
        fun ident => (name, a.file, ident.start, ident.stop) := by
  obtain ⟨file, w, action⟩ := a
  cases hdeclares : action.declares name with
  | false =>
      have hnone : Definition.lastUnder path
          ((emissions ⟨file, w, action⟩ t).filterMap Emission.definition?) = none := by
        rw [← Option.not_isSome_iff_eq_none, Definition.lastUnder_isSome,
          exists_definition_emissions, h, hdeclares]
        simp
      have hother : action.local?.filter (·.text = name) = none := by
        cases hlocal : action.local? with
        | none => rfl
        | some ident =>
            rw [declares, hlocal] at hdeclares
            simpa using hdeclares
      rw [hnone, hother]
      rfl
  | true =>
      have hpath := h.mpr hdeclares
      cases action with
      | declareLocal c ident owner kind type =>
          have hname : ident.text = name := by simpa [declares, local?] using hdeclares
          subst hname
          have hwritten : (emissions ⟨file, w, .declareLocal c ident owner kind type⟩ t).filterMap
              Emission.definition? = [⟨(c.key ident.text).inBlock w.block, kind, ident.text, file,
                ident.start, ident.stop, owner.start, owner.stop, []⟩] := rfl
          simp only [definedPath?, Option.some_inj] at hpath
          rw [hwritten]
          simp [Definition.lastUnder, hpath, local?, Definition.site, Option.filter]
      | _ => cases hdeclares

/-- What the steps of one stretch leave under the path of a local. -/
theorem lastUnder_stretch {file name path : String} {n : Nat} : ∀ (steps : List Action)
    (w : Walker) (t : Symbols), w.block = n →
    (∀ a ∈ steps, a ≠ .openBlock ∧ a ≠ .openRoutine) →
    (∀ a ∈ steps, a.definedPath? n = some path ↔ a.declares name = true) →
    (Definition.lastUnder path (definitions t (ofActions file steps w))).map Definition.site =
      ((steps.filterMap local?).filter (·.text = name)).getLast?.map
        fun ident => (name, file, ident.start, ident.stop)
  | [], _, _, _, _, _ => rfl
  | a :: rest, w, t, hblock, hstretch, hpath => by
      obtain ⟨hopen, hroutine⟩ := hstretch a List.mem_cons_self
      have hstretch' := fun b hb => hstretch b (List.mem_cons_of_mem a hb)
      have hpath' := fun b hb => hpath b (List.mem_cons_of_mem a hb)
      by_cases ha : ∃ path, a = .inclusion path
      · obtain ⟨path, rfl⟩ := ha
        exact lastUnder_stretch rest w t hblock hstretch' hpath'
      · have hmoved : (a.moved w).block = n := by
          rw [moved_block, ← hblock]
          cases a with
          | openBlock => exact absurd rfl hopen
          | openRoutine => exact absurd rfl hroutine
          | _ => rfl
        have ih : (Definition.lastUnder path (definitions (a.declared t)
            (ofActions file rest (a.moved w)))).map Definition.site = _ :=
          lastUnder_stretch rest (a.moved w) (a.declared t) hmoved hstretch' hpath'
        have hact := lastUnder_of_declares (a := ⟨file, w, a⟩) (t := t)
          (by rw [hblock]; exact hpath a List.mem_cons_self)
        have hlocals : ((a :: rest).filterMap local?).filter (·.text = name) =
            (a.local?.filter (·.text = name)).toList ++
              (rest.filterMap local?).filter (·.text = name) := by
          rw [List.filterMap_cons]
          cases a.local? with
          | none => rfl
          | some ident => by_cases hname : ident.text = name <;> simp [hname, Option.filter]
        rw [ofActions_cons file fun path hpath => ha ⟨path, hpath⟩, definitions_cons,
          Definition.lastUnder_append, Option.map_or, ih, hact, hlocals, List.getLast?_append,
          Option.map_or]
        congr 1
        cases a.local?.filter (·.text = name) <;> rfl

theorem mem_ofActions (file : String) (before : List Action) {a : Action}
    (ha : ∀ path, a ≠ .inclusion path) (after : List Action) (w : Walker) :
    ⟨file, w.after before, a⟩ ∈ ofActions file (before ++ a :: after) w := by
  rw [ofActions_append, ofActions_cons file ha]
  exact List.mem_append_right _ List.mem_cons_self

/-- What an act writes with any tables is written. -/
theorem mem_emitAll_of_mem {acts : List Act} {a : Act} (ha : a ∈ acts) {e : Emission}
    (he : ∀ t, e ∈ a.emissions t) (t : Symbols) : e ∈ emitAll t acts := by
  obtain ⟨before, after, rfl⟩ := List.append_of_mem ha
  exact mem_emitAll.mpr ⟨before, a, after, rfl, he _⟩

end Act

namespace Node.HasBody

variable {tree : Node} {c : Context} {items : List Node} (h : tree.HasBody c items)
  {before rest : List Action} {a : Action}
include h

/-- Where a step of the body stands among the steps of the file: inside a block. -/
theorem exists_split (hitems : Node.actionsOfAll c items = before ++ a :: rest) :
    ∃ front back, tree.actions {} = front ++ a :: (rest ++ back) ∧
      (∀ b ∈ back, b.KeepsOff c) ∧ 0 < (({} : Walker).after front).block := by
  obtain ⟨outer, n, d, back, hsteps, hroutine, hback⟩ := h.placed
  obtain ⟨head, hactions⟩ := hroutine.actions_eq
  refine ⟨outer ++ head ++ .openBlock :: before, .closeScope :: .closeRoutine :: back, ?_, ?_, ?_⟩
  · rw [hsteps, hactions, hitems]
    simp
  · intro b hb
    rcases List.mem_cons.mp hb with rfl | hb
    · exact fun _ _ => nofun
    · rcases List.mem_cons.mp hb with rfl | hb
      · exact fun _ _ => nofun
      · exact hback b hb
  · have hbefore : .openRoutine ∉ before := fun hmem =>
      (h.flat _ (hitems ▸ List.mem_append_left _ hmem)).2 rfl
    rw [Walker.after_append]
    have hopened : ((({} : Walker).after (outer ++ head)).after (.openBlock :: before)).block =
        (({} : Walker).after (outer ++ head)).block + 1 + before.count .openBlock :=
      Walker.after_block hbefore _
    omega

/-- From the opening of a block on, the number of the block is another. -/
theorem lastUnder_tail (file : String) {tail : List Action}
    (htail : ∀ b ∈ tail, b ∈ Node.actionsOfAll c items) (hopen : ∀ b ∈ tail.head?, b = .openBlock)
    {w : Walker} (hblock : 0 < w.block) (name : String) (t : Symbols) :
    Definition.lastUnder ((c.key name).inBlock w.block).path
      (Act.definitions t (Act.ofActions file tail w)) = none := by
  refine Act.lastUnder_eq_none fun a ha hpath => ?_
  obtain ⟨before, after, rfl, -, hwalker⟩ := Act.exists_of_mem_ofActions ha
  cases before with
  | nil =>
      rw [hopen a.action rfl] at hpath
      cases hpath
  | cons b before =>
      obtain rfl := hopen b rfl
      have hroutine : .openRoutine ∉ .openBlock :: before := fun hmem =>
        (h.flat _ (htail _ (List.mem_append_left _ hmem))).2 rfl
      have hlater : a.walker.block = w.block + (before.count .openBlock + 1) := by
        rw [hwalker, Walker.after_block hroutine, List.count_cons_self]
      have hitem := htail a.action (List.mem_append_right _ List.mem_cons_self)
      have hsame := ((h.definedPath?_iff hitem hblock (by omega)).mp hpath).2
      omega

/-- What the file leaves under the path of a local: the last local of the name in its
stretch.  What is written before does not matter, as it is overwritten. -/
theorem lastUnder_site {d : Context} {ident owner : Excerpt} {kind : Kind} {type : Option String}
    {front back : List Action} (file : String) (t : Symbols)
    (hitems : Node.actionsOfAll c items = before ++ .declareLocal d ident owner kind type :: rest)
    (hsteps : tree.actions {} = front ++ .declareLocal d ident owner kind type :: (rest ++ back))
    (hback : ∀ b ∈ back, b.KeepsOff c) (hblock : 0 < (({} : Walker).after front).block) :
    (Definition.lastUnder ((c.key ident.text).inBlock (({} : Walker).after front).block).path
      (Act.definitions t (Act.ofActions file (tree.actions {}) {}))).map Definition.site =
        let last := lastOfStretch ident.text ident rest
        some (ident.text, file, last.start, last.stop) := by
  generalize hw : ({} : Walker).after front = w at hblock
  let first := Action.declareLocal d ident owner kind type
  let stretch := rest.takeWhile (· ≠ .openBlock)
  let tail := rest.dropWhile (· ≠ .openBlock)
  have hrest : stretch ++ tail = rest := List.takeWhile_append_dropWhile
  have hmem : ∀ b ∈ first :: stretch ++ tail, b ∈ Node.actionsOfAll c items := by
    intro b hb
    rw [hitems, ← hrest]
    exact List.mem_append_right _ hb
  -- Inside the stretch all stands in one block.
  have hstretch : ∀ b ∈ first :: stretch, b ≠ .openBlock ∧ b ≠ .openRoutine := by
    intro b hb
    refine ⟨?_, (h.flat b (hmem b (List.mem_append_left _ hb))).2⟩
    rcases List.mem_cons.mp hb with rfl | hb
    · nofun
    · simpa using List.mem_takeWhile_imp hb
  have hlast : ∀ u, (Definition.lastUnder ((c.key ident.text).inBlock w.block).path
      (Act.definitions u (Act.ofActions file (first :: stretch) w))).map Definition.site = _ :=
    fun u => Act.lastUnder_stretch (first :: stretch) w u rfl hstretch fun b hb => by
      rw [h.definedPath?_iff (hmem b (List.mem_append_left _ hb)) hblock hblock]
      exact and_iff_left rfl
  have hsame := Walker.after_block_eq hstretch w
  have htail : ∀ u, Definition.lastUnder ((c.key ident.text).inBlock w.block).path
      (Act.definitions u (Act.ofActions file tail (w.after (first :: stretch)))) = none := by
    intro u
    rw [← hsame]
    refine h.lastUnder_tail file (fun b hb => hmem b (List.mem_append_right _ hb)) ?_
      (hsame ▸ hblock) ident.text u
    intro b hb
    have hhead := List.head?_dropWhile_not (fun x : Action => decide (x ≠ .openBlock)) rest
    rw [Option.mem_def.mp hb] at hhead
    simpa using hhead
  have hend := Act.lastUnder_of_keepsOff file hback ident.text hblock
  have hsplit : tree.actions {} = front ++ ((first :: stretch) ++ (tail ++ back)) := by
    rw [hsteps, ← hrest, List.cons_append, List.append_assoc]
  rw [hsplit, Act.ofActions_append, Act.ofActions_append, Act.ofActions_append, hw]
  simp only [Act.definitions_append, Definition.lastUnder_append, hend, htail, Option.none_or,
    Option.map_or, hlast]
  have hlocals : ((first :: stretch).filterMap local?).filter (·.text = ident.text) =
      ident :: (stretch.filterMap local?).filter (·.text = ident.text) :=
    List.filter_cons_of_pos (by simp)
  rw [hlocals, List.getLast?_cons, ← List.getLastD_eq_getLast?]
  rfl

end Node.HasBody

namespace Session

open Step

/-- A run on one file goes through the acts of that file. -/
theorem Tour.acts_of_single {s : Session} {paths : List String} {file : String}
    {steps : List Step} (h : s.Tour paths steps) (hfiles : s.configured paths = [file]) :
    Step.acts steps = s.acts file := by
  have hfile : ∀ a ∈ Step.acts steps, a.file = file := by
    intro a ha
    obtain ⟨walked, hwalked, ha⟩ := h.mem_acts.mp ha
    rw [hfiles, List.mem_singleton] at hwalked
    rw [s.file_of_mem_acts ha, hwalked]
  have hfilter := h.acts_filter file
  rw [hfiles, if_pos (List.mem_singleton.mpr rfl)] at hfilter
  rw [← hfilter]
  exact (List.filter_eq_self.mpr fun a ha => by simpa using hfile a ha).symm

section Written

variable {s : Session} {steps : List Step} {run : Run} {report : Report} {file : String}
  {actions front rest : List Action} (h : s.Finished steps run report)
  (hacts : Step.acts steps = Act.ofActions file actions {})
include h hacts

/-- A local is written under a key with the number of its block. -/
theorem Finished.exists_local {d : Context} {ident owner : Excerpt} {kind : Kind}
    {type : Option String}
    (hsteps : actions = front ++ .declareLocal d ident owner kind type :: rest) :
    ∃ x ∈ run.store.written, x.site = (ident.text, file, ident.start, ident.stop) ∧
      x.key = (d.key ident.text).inBlock (({} : Walker).after front).block := by
  have hact := Act.mem_ofActions file front (a := .declareLocal d ident owner kind type)
    (fun _ => nofun) rest {}
  rw [← hsteps, ← hacts] at hact
  have hwritten := Act.mem_emitAll_of_mem hact (fun _ => List.mem_cons_self)
    (s.known (Step.acts steps))
  exact ⟨_, h.written.mem_iff.mpr (Emission.mem_filterMap_definition?.mpr hwritten), rfl, rfl⟩

/-- A name that is read is reported under the key of the local that it is found to be. -/
theorem Finished.exists_read {d : Context} {occurrence : Excerpt} {b : Binding}
    (hsteps : actions = front ++ .read d occurrence :: rest)
    (hlookup : (({} : Walker).after front).scopes.lookup occurrence.text = some b) :
    ∃ r ∈ run.store.references, r.isDef = false ∧ r.file = file ∧ r.start = occurrence.start ∧
      r.stop = occurrence.stop ∧ r.key.path = b.key.path := by
  have hact := Act.mem_ofActions file front (a := .read d occurrence) (fun _ => nofun) rest {}
  rw [← hsteps, ← hacts] at hact
  have hwritten := Act.mem_emitAll_of_mem hact (e := .refer file occurrence b.key) (fun t => by
    have hresolve : (({} : Walker).after front).resolve t d occurrence.text = b.key := by
      rw [Walker.resolve, hlookup]
    exact hresolve ▸ List.mem_singleton.mpr rfl) (s.known (Step.acts steps))
  obtain ⟨r, hr, hsame⟩ : ∃ r ∈ run.store.references, r.same _ = true :=
    h.references ▸ Reference.exists_same_foldl_addTo
      (Or.inl (Emission.mem_filterMap_reference?.mpr hwritten))
  obtain ⟨hstart, hstop, hdef, hfile, -, -, -, hpath⟩ := Reference.same_iff.mp hsame
  exact ⟨r, hr, hdef, hfile, hstart, hstop, hpath⟩

end Written

section Body

variable {s : Session} {steps : List Step} {run : Run} {report : Report} {file : String}
  {tree : Node} {c : Context} {items : List Node} (h : s.Finished steps run report)
  (hacts : Step.acts steps = Act.ofActions file (tree.actions {}) {}) (hbody : tree.HasBody c items)
  {before between after : List Action} {d₁ d₂ : Context}
include h hacts hbody

theorem Finished.exists_read_of_binds {ident owner occurrence : Excerpt} {kind : Kind}
    {type : Option String}
    (hitems : Node.actionsOfAll c items = before ++ .declareLocal d₁ ident owner kind type ::
      (between ++ .read d₂ occurrence :: after))
    (htext : occurrence.text = ident.text) (hbinds : Binds ident.text between) :
    ∃ r ∈ run.store.references, r.isDef = false ∧ r.file = file ∧
      r.start = occurrence.start ∧ r.stop = occurrence.stop ∧
      (run.store.get? r.key.path).map Definition.site =
        let last := lastOfStretch ident.text ident (between ++ .read d₂ occurrence :: after)
        some (ident.text, file, last.start, last.stop) := by
  obtain ⟨front, back, hsteps, hback, hblock⟩ := hbody.exists_split hitems
  obtain rfl : d₁ = c := hbody.context_eq (hitems ▸ List.mem_append_right _ List.mem_cons_self)
  have hsite := hbody.lastUnder_site file (s.known (Step.acts steps)) hitems hsteps hback hblock
  have hread : tree.actions {} = (front ++ .declareLocal d₁ ident owner kind type :: between) ++
      .read d₂ occurrence :: (after ++ back) := by
    rw [hsteps]
    simp
  have hlookup : ((({} : Walker).after front).after
      (.declareLocal d₁ ident owner kind type :: between)).scopes.lookup ident.text = _ :=
    Walker.lookup_of_binds (Walker.after_valid Scopes.initial_valid front) hbinds
  rw [← Walker.after_append, ← htext] at hlookup
  obtain ⟨r, hr, hdef, hfile, hstart, hstop, hpath⟩ := h.exists_read hacts hread hlookup
  refine ⟨r, hr, hdef, hfile, hstart, hstop, ?_⟩
  rw [h.get?, hpath, ← hsite, hacts, htext]

theorem Finished.exists_same_key_iff {ident₁ owner₁ ident₂ owner₂ : Excerpt} {kind₁ kind₂ : Kind}
    {type₁ type₂ : Option String}
    (hitems : Node.actionsOfAll c items = before ++ .declareLocal d₁ ident₁ owner₁ kind₁ type₁ ::
      (between ++ .declareLocal d₂ ident₂ owner₂ kind₂ type₂ :: after))
    (htext : ident₁.text = ident₂.text) :
    ∃ x ∈ run.store.written, ∃ y ∈ run.store.written,
      x.site = (ident₁.text, file, ident₁.start, ident₁.stop) ∧
      y.site = (ident₂.text, file, ident₂.start, ident₂.stop) ∧
      (x.key.path = y.key.path ↔ .openBlock ∉ between) := by
  obtain ⟨front, back, hsteps, -, hblock⟩ := hbody.exists_split hitems
  have hsecond : tree.actions {} =
      (front ++ .declareLocal d₁ ident₁ owner₁ kind₁ type₁ :: between) ++
        .declareLocal d₂ ident₂ owner₂ kind₂ type₂ :: (after ++ back) := by
    rw [hsteps]
    simp
  obtain ⟨x, hx, hxsite, hxkey⟩ := h.exists_local hacts hsteps
  obtain ⟨y, hy, hysite, hykey⟩ := h.exists_local hacts hsecond
  obtain rfl : d₁ = c := hbody.context_eq (hitems ▸ List.mem_append_right _ List.mem_cons_self)
  obtain rfl : d₂ = d₁ := hbody.context_eq (hitems ▸ List.mem_append_right _
    (List.mem_cons_of_mem _ (List.mem_append_right _ List.mem_cons_self)))
  have hroutine : .openRoutine ∉ .declareLocal d₂ ident₁ owner₁ kind₁ type₁ :: between := by
    intro hmem
    refine (hbody.flat _ (hitems ▸ List.mem_append_right _ ?_)).2 rfl
    rw [← List.cons_append]
    exact List.mem_append_left _ hmem
  have hopened : (Action.declareLocal d₂ ident₁ owner₁ kind₁ type₁ :: between).count .openBlock =
      between.count .openBlock := List.count_cons_of_ne (by simp)
  refine ⟨x, hx, y, hy, hxsite, hysite, ?_⟩
  rw [hxkey, hykey, Walker.after_append, Walker.after_block hroutine, hopened, htext,
    d₂.local_path_inj hblock (by omega), ← List.count_eq_zero]
  constructor
  · rintro ⟨-, hsame⟩
    omega
  · intro hnone
    exact ⟨rfl, by omega⟩

end Body

/-- In the body of a routine, a name that is read and bound to a local is reported under
a key whose definition is the last local of that name in the stretch of the one it is
bound to; and two locals of one name share their key if and only if no block is opened
between them. -/
theorem reads_lead_to_last_of_stretch {s : Session} {paths : List String} {file : String}
    {tree : Node} {c : Context} {items : List Node} (hfiles : s.configured paths = [file])
    (htree : s.tree? file = some tree) (hbody : tree.HasBody c items) :
    ∃ run report, s.process paths {} = .done run report ∧
      (∀ before d₁ ident owner kind type between d₂ occurrence after,
        Node.actionsOfAll c items = before ++ .declareLocal d₁ ident owner kind type ::
          (between ++ .read d₂ occurrence :: after) →
        occurrence.text = ident.text → Binds ident.text between →
        ∃ r ∈ run.store.references, r.isDef = false ∧ r.file = file ∧
          r.start = occurrence.start ∧ r.stop = occurrence.stop ∧
          (run.store.get? r.key.path).map Definition.site =
            let last := lastOfStretch ident.text ident (between ++ .read d₂ occurrence :: after)
            some (ident.text, file, last.start, last.stop)) ∧
      (∀ before d₁ ident₁ owner₁ kind₁ type₁ between d₂ ident₂ owner₂ kind₂ type₂ after,
        Node.actionsOfAll c items = before ++ .declareLocal d₁ ident₁ owner₁ kind₁ type₁ ::
          (between ++ .declareLocal d₂ ident₂ owner₂ kind₂ type₂ :: after) →
        ident₁.text = ident₂.text →
        ∃ x ∈ run.store.written, ∃ y ∈ run.store.written,
          x.site = (ident₁.text, file, ident₁.start, ident₁.stop) ∧
          y.site = (ident₂.text, file, ident₂.start, ident₂.stop) ∧
          (x.key.path = y.key.path ↔ .openBlock ∉ between)) := by
  obtain ⟨run, report, hdone⟩ := (s.process_done_iff paths).mpr fun other hother => by
    rw [hfiles, List.mem_singleton] at hother
    exact hother ▸ readable_of_tree? htree
  obtain ⟨steps, htour, hfinished⟩ := process_done hdone
  have hacts : Step.acts steps = Act.ofActions file (tree.actions {}) {} :=
    (htour.acts_of_single hfiles).trans (s.acts_eq htree)
  refine ⟨run, report, hdone, ?_, ?_⟩
  · intro before d₁ ident owner kind type between d₂ occurrence after hitems htext hbinds
    exact hfinished.exists_read_of_binds hacts hbody hitems htext hbinds
  · intro before d₁ ident₁ owner₁ kind₁ type₁ between d₂ ident₂ owner₂ kind₂ type₂ after
      hitems htext
    exact hfinished.exists_same_key_iff hacts hbody hitems htext

/-! Two routines with two locals of one name, in two blocks:

    void f() { int x; { int x; x; } x; }
    void f() { { int x; x; } int x; x; }
-/

/-- `int x;`, with the name at a position. -/
def declareX (start : Int) : Node :=
  .declaration ⟨⟨"int x;", start - 4, start + 1⟩, [], [.primitive ⟨"int", start - 4, start - 2⟩ []],
    [⟨⟨"x", start, start⟩,
      some ⟨⟨"x", start, start⟩, some ⟨"x", start, start⟩, false, none⟩, none⟩]⟩

def readX (start : Int) : Node := .identifier ⟨"x", start, start⟩ none

def innerLast : List Node :=
  [declareX 15, .compoundStatement ⟨"{ int x; x; }", 18, 30⟩ [declareX 24, readX 27], readX 32]

def innerFirst : List Node :=
  [.compoundStatement ⟨"{ int x; x; }", 11, 23⟩ [declareX 17, readX 20], declareX 29, readX 32]

def routineOf (items : List Node) : Node :=
  .unit {} [.functionDefinition {} [] (some ⟨{}, some ⟨"f", 5, 5⟩, false, some []⟩)
    (some (.compoundStatement {} items))]

def routineFile (items : List Node) : Session :=
  { mutualUnit with
    sources := { mutualUnit.sources with parse := fun _ _ => ([], .ok ⟨routineOf items, []⟩) } }

/-- What stands between the two reads' outer local and the outer read. -/
def innerSteps : List Action :=
  [.openBlock, .refer ⟨"int", 20, 22⟩ (.global "int"),
    .declareLocal ⟨none, some "f"⟩ ⟨"x", 24, 24⟩ ⟨"int x;", 20, 25⟩ .variable (some "int"),
    .read ⟨none, some "f"⟩ ⟨"x", 27, 27⟩, .closeScope]

theorem innerLast_hasBody : (routineOf innerLast).HasBody ⟨none, some "f"⟩ innerLast where
  placed := ⟨[], _, {}, [], by simp [routineOf, Node.actions, Node.actionsOfAll],
    .function {} [] {} ⟨"f", 5, 5⟩ false (some []) {} innerLast, fun _ => nofun⟩
  flat := by decide
  others := by
    have hnone : ∀ a ∈ Node.actionsOfAll ⟨none, some "f"⟩ innerLast,
        a.local? = none → a.definedPath? 0 = none := by decide
    intro a ha hlocal block path hpath
    rw [Action.definedPath?_of_local?_eq_none hlocal block 0, hnone a ha hlocal] at hpath
    cases hpath

/-- Where the inner block stands last, the outer read leads to the outer local. -/
theorem reads_lead_to_last_of_stretch_nested :
    ∃ run report, (routineFile innerLast).process ["a.m"] {} = .done run report ∧
      ∃ r ∈ run.store.references, r.isDef = false ∧ r.file = "a.m" ∧ r.start = 32 ∧ r.stop = 32 ∧
        (run.store.get? r.key.path).map Definition.site = some ("x", "a.m", 15, 15) := by
  have hfiles : (routineFile innerLast).configured ["a.m"] = ["a.m"] := by decide
  obtain ⟨run, report, hdone, hreads, -⟩ :=
    reads_lead_to_last_of_stretch hfiles rfl innerLast_hasBody
  exact ⟨run, report, hdone, hreads [.refer ⟨"int", 11, 13⟩ (.global "int")] ⟨none, some "f"⟩
    ⟨"x", 15, 15⟩ ⟨"int x;", 11, 16⟩ .variable (some "int") innerSteps ⟨none, some "f"⟩
    ⟨"x", 32, 32⟩ [] (by decide) rfl (by decide)⟩

/-- Where it stands first, the inner read is bound to the inner local, and leads to the
outer one: the two share their key. -/
theorem inner_read_leads_to_outer_local :
    Node.actionsOfAll ⟨none, some "f"⟩ innerFirst =
      [.openBlock, .refer ⟨"int", 13, 15⟩ (.global "int")] ++
      .declareLocal ⟨none, some "f"⟩ ⟨"x", 17, 17⟩ ⟨"int x;", 13, 18⟩ .variable (some "int") ::
        ([] ++ .read ⟨none, some "f"⟩ ⟨"x", 20, 20⟩ ::
          [.closeScope, .refer ⟨"int", 25, 27⟩ (.global "int"),
            .declareLocal ⟨none, some "f"⟩ ⟨"x", 29, 29⟩ ⟨"int x;", 25, 30⟩ .variable (some "int"),
            .read ⟨none, some "f"⟩ ⟨"x", 32, 32⟩]) ∧
    Binds "x" [] ∧
    let store := ((routineFile innerFirst).process ["a.m"] {}).run.store
    (store.references.filter fun r => r.start = 20).map
      (fun r => (store.get? r.key.path).map Definition.site) = [some ("x", "a.m", 29, 29)] := by
  refine ⟨by decide, by decide, ?_⟩
  decide +kernel

end Session

end SymbolGraph
