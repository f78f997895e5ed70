import SymbolGraph.Proofs.Backing
import SymbolGraph.Proofs.Writes

/-!
# `Proofs.Rerun` — the same call again changes nothing

A call is made again on the state that it left, and the files are as they were.

In ONE PASS all configured files were visited, and the second call visits none.

In TWO PASSES the second call collects nothing, since all files were visited, but then it
forgets the visits and emits everything once more, with the tables that the first call
left.  Those are the tables with which the first call began to emit:

    acts fill the same places, in the same order             `Symbols.SameOrder`
    a cell holds what was written there last                 `Act.at?_declareAll`
    so acts that are done twice leave the tables alone       `Act.declareAll_again`

Hence every act writes the second time what it wrote the first time, and what is written
twice is stored as if it were written once (`Store.definitions_again`,
`Store.references_again`).
-/

namespace SymbolGraph

open Step

/-! ## The tables, filled twice -/

namespace Symbols

/-- No name stands twice in a table. -/
structure Distinct (t : Symbols) : Prop where
  globals : t.globals.Distinct
  classes : t.members.Distinct
  members : ∀ className, (t.membersOf className).Distinct

/-- The places of the two tables were filled in the same order. -/
structure SameOrder (t u : Symbols) : Prop where
  globals : t.globals.keys = u.globals.keys
  classes : t.members.keys = u.members.keys
  members : ∀ className, (t.membersOf className).keys = (u.membersOf className).keys
  functions : t.functions = u.functions
  types : t.types = u.types
  methods : t.declaredMethods = u.declaredMethods

variable {t u v : Symbols}

theorem SameOrder.refl (t : Symbols) : t.SameOrder t := ⟨rfl, rfl, fun _ => rfl, rfl, rfl, rfl⟩

theorem SameOrder.trans (h : t.SameOrder u) (h' : u.SameOrder v) : t.SameOrder v :=
  ⟨h.globals.trans h'.globals, h.classes.trans h'.classes,
    fun c => (h.members c).trans (h'.members c), h.functions.trans h'.functions,
    h.types.trans h'.types, h.methods.trans h'.methods⟩

theorem distinct_empty : ({} : Symbols).Distinct :=
  ⟨List.nodup_nil, List.nodup_nil, fun _ => List.nodup_nil⟩

theorem membersOf_setMember (t : Symbols) (className name other : String) (type : Option String) :
    (t.setMember className name type).membersOf other =
      if className = other then (t.membersOf className).set name type else t.membersOf other := by
  simp only [membersOf, setMember, Dict.get?_set]
  split <;> rfl

theorem Distinct.setMember (h : t.Distinct) (className name : String) (type : Option String) :
    (t.setMember className name type).Distinct where
  globals := h.globals
  classes := Dict.distinct_set h.classes _ _
  members := by
    intro other
    rw [membersOf_setMember]
    split
    · exact Dict.distinct_set (h.members className) name type
    · exact h.members other

theorem Distinct.declared (h : t.Distinct) (a : Action) : (a.declared t).Distinct := by
  unfold Action.declared perform
  cases a with
  | setGlobal name type => exact ⟨Dict.distinct_set h.globals name type, h.classes, h.members⟩
  | setMember className name type => exact h.setMember className name type
  | registerClass name =>
      have htype : (t.addType name).Distinct := ⟨h.globals, h.classes, h.members⟩
      exact htype.setMember name "self" (some name)
  | addType | addFunction | declareMethod => exact ⟨h.globals, h.classes, h.members⟩
  | implement =>
      dsimp only
      split <;> exact h
  | _ => exact h

theorem sameOrder_setMember {className name : String} (htable : t.Holds (.table className))
    (hmember : t.Holds (.member className name)) (type : Option String) :
    (t.setMember className name type).SameOrder t where
  globals := rfl
  classes := (Dict.keys_set ..).trans (insertNew_of_mem htable)
  members := by
    intro other
    rw [membersOf_setMember]
    split
    · next heq =>
      subst heq
      obtain ⟨value, hvalue⟩ := Option.isSome_iff_exists.mp hmember
      exact (Dict.keys_set ..).trans (insertNew_of_mem (Dict.mem_keys_of_get? hvalue))
    · rfl
  functions := rfl
  types := rfl
  methods := rfl

theorem sameOrder_addType {name : String} (h : t.Holds (.type name)) :
    (t.addType name).SameOrder t :=
  ⟨rfl, rfl, fun _ => rfl, rfl, insertNew_of_mem h, rfl⟩

/-- A step that fills no new place leaves the order alone. -/
theorem sameOrder_declared {a : Action} (h : ∀ e ∈ a.entries, t.Holds e) :
    (a.declared t).SameOrder t := by
  unfold Action.declared perform
  cases a with
  | setGlobal name type =>
      obtain ⟨hname, -⟩ := List.forall_mem_cons.mp h
      have hkeys := (Dict.keys_set t.globals name type).trans (insertNew_of_mem hname)
      exact ⟨hkeys, rfl, fun _ => rfl, rfl, rfl, rfl⟩
  | setMember className name type =>
      obtain ⟨htable, hrest⟩ := List.forall_mem_cons.mp h
      obtain ⟨hmember, -⟩ := List.forall_mem_cons.mp hrest
      exact sameOrder_setMember htable hmember type
  | registerClass name =>
      obtain ⟨htable, hrest⟩ := List.forall_mem_cons.mp h
      obtain ⟨htype, hrest⟩ := List.forall_mem_cons.mp hrest
      obtain ⟨hself, -⟩ := List.forall_mem_cons.mp hrest
      exact (sameOrder_setMember (holds_addType.mpr (Or.inr htable))
        (holds_addType.mpr (Or.inr hself)) _).trans (sameOrder_addType htype)
  | addType name =>
      obtain ⟨htype, -⟩ := List.forall_mem_cons.mp h
      exact sameOrder_addType htype
  | addFunction path =>
      obtain ⟨hfunction, -⟩ := List.forall_mem_cons.mp h
      exact ⟨rfl, rfl, fun _ => rfl, insertNew_of_mem hfunction, rfl, rfl⟩
  | declareMethod path =>
      obtain ⟨hfunction, hrest⟩ := List.forall_mem_cons.mp h
      obtain ⟨hmethod, -⟩ := List.forall_mem_cons.mp hrest
      exact ⟨rfl, rfl, fun _ => rfl, insertNew_of_mem hfunction, rfl, insertNew_of_mem hmethod⟩
  | implement =>
      dsimp only
      split <;> exact .refl t
  | _ => exact .refl t

theorem get?_members (t : Symbols) (className : String) : t.members.get? className =
    if className ∈ t.members.keys then some (t.membersOf className) else none := by
  cases hget : t.members.get? className with
  | none =>
      have hnew : className ∉ t.members.keys := fun hmem => by
        rw [← Dict.isSome_get?, hget] at hmem
        cases hmem
      rw [if_neg hnew]
  | some members => rw [if_pos (Dict.mem_keys_of_get? hget), membersOf, hget, Option.getD_some]

/-- Tables are given by the order of their places and by what the cells hold. -/
theorem eq_of_sameOrder (ht : t.Distinct) (h : t.SameOrder u)
    (hcells : ∀ cell, t.at? cell = u.at? cell) : t = u := by
  have hglobals : t.globals = u.globals :=
    Dict.eq_of_keys ht.globals h.globals fun name => hcells (.global name)
  have hmembersOf : ∀ c, t.membersOf c = u.membersOf c := fun c =>
    Dict.eq_of_keys (ht.members c) (h.members c) fun name => hcells (.member c name)
  have hmembers : t.members = u.members := by
    refine Dict.eq_of_keys ht.classes h.classes fun c => ?_
    rw [get?_members, get?_members, h.classes, hmembersOf]
  cases t
  cases u
  cases hglobals
  cases hmembers
  cases h.functions
  cases h.types
  cases h.methods
  rfl

end Symbols

namespace Act

theorem distinct_declareAll : ∀ (acts : List Act) {t : Symbols}, t.Distinct →
    (declareAll acts t).Distinct
  | [], _, h => h
  | a :: rest, _, h => distinct_declareAll rest (h.declared a.action)

/-- Acts whose places are filled already leave the order alone. -/
theorem sameOrder_declareAll : ∀ {acts : List Act} {t : Symbols},
    (∀ a ∈ acts, ∀ e ∈ a.action.entries, t.Holds e) → (declareAll acts t).SameOrder t
  | [], t, _ => .refl t
  | a :: rest, t, h => by
      obtain ⟨ha, hrest⟩ := List.forall_mem_cons.mp h
      have hlater : ∀ b ∈ rest, ∀ e ∈ b.action.entries, (a.action.declared t).Holds e :=
        fun b hb e he => Symbols.holds_declared.mpr (Or.inr (hrest b hb e he))
      exact (sameOrder_declareAll hlater).trans (Symbols.sameOrder_declared ha)

/-- Acts that are done a second time find the tables as they leave them. -/
theorem declareAll_again (acts : List Act) {t : Symbols} (ht : t.Distinct) :
    declareAll acts (declareAll acts t) = declareAll acts t := by
  have hfilled : ∀ a ∈ acts, ∀ e ∈ a.action.entries, (declareAll acts t).Holds e :=
    fun a ha e he => Symbols.holds_declareAll.mpr (Or.inl ⟨a, ha, he⟩)
  refine Symbols.eq_of_sameOrder (distinct_declareAll acts (distinct_declareAll acts ht))
    (sameOrder_declareAll hfilled) fun cell => ?_
  rw [at?_declareAll, at?_declareAll, ← Option.or_assoc, Option.or_self]

end Act

/-! ## The store, written twice -/

namespace Reference

/-- References that are there already are not added. -/
theorem foldl_addTo_of_same : ∀ {rs refs : List Reference},
    (∀ r ∈ rs, ∃ x ∈ refs, x.same r = true) → rs.foldl addTo refs = refs
  | [], _, _ => rfl
  | r :: rs, refs, h => by
      obtain ⟨hr, hrs⟩ := List.forall_mem_cons.mp h
      have hadd : addTo refs r = refs := if_pos (List.any_eq_true.mpr hr)
      rw [List.foldl_cons, hadd, foldl_addTo_of_same hrs]

end Reference

namespace Store

theorem references_again (es : List Emission) (s : Store) :
    (recordAll es (recordAll es s).flush).references = (recordAll es s).references := by
  have hflush : (recordAll es s).flush.references = (recordAll es s).references := rfl
  rw [references_recordAll, hflush, references_recordAll]
  exact Reference.foldl_addTo_of_same fun r hr => Reference.exists_same_foldl_addTo (Or.inl hr)

theorem paths_again (es : List Emission) :
    (recordAll es (recordAll es {}).flush).paths = (recordAll es {}).paths := by
  have hpaths : (recordAll es {}).paths =
      ((es.filterMap Emission.definition?).map (·.key.path)).eraseDups := paths_recordAll es [] rfl
  have hnone : ∀ xs : List String, xs.removeAll xs = [] := fun xs =>
    List.filter_eq_nil_iff.mpr fun x hx => by simp [hx]
  rw [paths_recordAll es (s := (recordAll es {}).flush) _ hpaths, hpaths, List.map_append,
    List.eraseDups_append, hnone]
  exact List.append_nil _

theorem definitions_again (es : List Emission) :
    (recordAll es (recordAll es {}).flush).definitions = (recordAll es {}).definitions := by
  have hdistinct : (recordAll es {}).Distinct := distinct_recordAll es List.nodup_nil
  have hdistinct' : (recordAll es (recordAll es {}).flush).Distinct :=
    distinct_recordAll es (s := (recordAll es {}).flush) hdistinct
  have hget : ∀ path, (recordAll es (recordAll es {}).flush).get? path =
      (recordAll es {}).get? path := by
    intro path
    have hflush : (recordAll es {}).flush.get? path = (recordAll es {}).get? path := rfl
    rw [get?_recordAll, hflush, get?_recordAll, ← Option.or_assoc, Option.or_self]
  rw [definitions_eq_filterMap hdistinct, definitions_eq_filterMap hdistinct', paths_again,
    funext hget]

end Store

/-! ## The call, made twice -/

/-- Where all that the tasks lead to was visited, nothing is done. -/
theorem Traversal.of_visited {s : Session} {files visited : List String} {tasks : List Task}
    (h : ∀ task ∈ tasks, ∃ origin path, task = .follow origin path ∧
      s.normalizeFrom origin path ∈ visited) : Traversal s files visited tasks [] none := by
  induction tasks with
  | nil => exact .done
  | cons task rest ih =>
      obtain ⟨⟨origin, path, rfl, hvisited⟩, hrest⟩ := List.forall_mem_cons.mp h
      exact .pass (fun hfresh => hfresh.2 hvisited) (ih hrest)

namespace Session

variable {s : Session} {paths : List String} {run after : Run} {report : Report}
  {steps : List Step}

/-- The state in which a call is made that has been made before. -/
structure Repeats (s : Session) (paths : List String) (run : Run) : Prop where
  visited : ∀ file ∈ s.configured paths, file ∈ run.visited
  cache : run.cache = []

/-- A traversal from the configured files finds nothing to do. -/
theorem Repeats.traversal (h : s.Repeats paths run) {stop : Option String}
    (htraversal : Traversal s (s.configured paths) run.visited (s.roots paths) steps stop) :
    steps = [] ∧ stop = none := by
  have hnothing : Traversal s (s.configured paths) run.visited (s.roots paths) [] none := by
    refine .of_visited fun task htask => ?_
    obtain ⟨file, hfile, rfl⟩ := List.mem_map.mp htask
    exact ⟨none, file, rfl, (normalizeFrom_configured hfile).symm ▸ h.visited file hfile⟩
  exact htraversal.unique hnothing

/-- In one pass, such a call does nothing. -/
theorem Repeats.onePass (h : s.Repeats paths run) (hone : s.twoPass = false) :
    ∃ again report, s.process paths run = .done again report ∧
      again.symbols = run.symbols ∧ again.store.definitions = run.store.definitions ∧
      again.store.references = run.store.references := by
  obtain ⟨steps, hwalked⟩ := process_walked hone h.cache paths
  cases houtcome : s.process paths run with
  | halted again e =>
      rw [houtcome] at hwalked
      cases (h.traversal hwalked.traversal).2
  | done again report =>
      rw [houtcome] at hwalked
      obtain ⟨rfl, -⟩ := h.traversal hwalked.1.traversal
      refine ⟨again, report, rfl, hwalked.1.symbols, ?_⟩
      rcases hwalked.1.store with hstore | hstore
      · exact hstore ▸ ⟨rfl, rfl⟩
      · exact hstore ▸ ⟨rfl, rfl⟩

/-- In two passes, such a call collects nothing, and goes on to emit. -/
theorem Repeats.twoPasses (h : s.Repeats paths run) (htwo : s.twoPass = true) :
    ∃ mid, s.process paths run = s.emit (s.configured paths) mid ∧
      mid.files = s.configured paths ∧ mid.visited = [] ∧ mid.symbols = run.symbols ∧
      mid.store = run.store ∧ s.CacheValid mid.cache := by
  let start := s.collectingStart paths run
  have hvalid : s.CacheValid start.cache := h.cache.symm ▸ s.cacheValid_nil
  have hfollows : (s.runPass .collecting (s.configured paths) start).Follows s .collecting
      (s.roots paths) start := runPass_follows _ hvalid
  rw [process_twoPass htwo]
  cases houtcome : s.runPass .collecting (s.configured paths) start with
  | halted mid e =>
      rw [houtcome] at hfollows
      obtain ⟨steps, htraversal, -⟩ := hfollows
      cases (h.traversal htraversal).2
  | done mid value =>
      rw [houtcome] at hfollows
      obtain ⟨steps, htraversal, heffect⟩ := hfollows
      obtain ⟨rfl, -⟩ := h.traversal htraversal
      exact ⟨{ mid with visited := [] }, rfl, heffect.files, rfl, heffect.symbols, heffect.store,
        heffect.valid⟩

/-- An emitting pass over files that can all be read comes to its end. -/
theorem Tour.emit_done (h : s.Tour paths steps) (hfiles : run.files = s.configured paths)
    (hvisited : run.visited = []) (hvalid : s.CacheValid run.cache) :
    ∃ again report, s.emit (s.configured paths) run = .done again report ∧
      again.symbols = Act.declareAll (Step.acts steps) run.symbols ∧
      again.store =
        (run.store.recordAll (Act.emitAll run.symbols (Step.acts steps))).flush := by
  cases houtcome : s.emit (s.configured paths) run with
  | halted again e =>
      obtain ⟨more, htraversal, -⟩ := emit_halted hvalid houtcome
      rw [hfiles, hvisited] at htraversal
      cases (htraversal.unique h).2
  | done again report =>
      obtain ⟨more, last, htraversal, heffect, -, -, hstore, -, hsymbols, -⟩ :=
        Session.emit_done hvalid houtcome
      rw [hfiles, hvisited] at htraversal
      obtain ⟨rfl, -⟩ := htraversal.unique h
      exact ⟨again, report, rfl, hsymbols.trans heffect.symbols,
        hstore.trans (congrArg Store.flush heffect.store)⟩

/-- The same call again, on the state that it left and on the same files, is done, and
leaves definitions, references and tables as they were, in their order. -/
theorem same_call_changes_nothing (h : s.process paths {} = .done run report) :
    ∃ again report', s.process paths run = .done again report' ∧
      again.store.definitions = run.store.definitions ∧
      again.store.references = run.store.references ∧ again.symbols = run.symbols := by
  obtain ⟨steps, htour, hfinished⟩ := process_done h
  have hrepeats : s.Repeats paths run :=
    ⟨fun file hfile => hfinished.visited ▸ htour.mem_entered.mpr hfile, hfinished.cache⟩
  cases htwo : s.twoPass with
  | false =>
      obtain ⟨again, report', hdone, hsymbols, hdefinitions, hreferences⟩ := hrepeats.onePass htwo
      exact ⟨again, report', hdone, hdefinitions, hreferences, hsymbols⟩
  | true =>
      obtain ⟨mid, hprocess, hfiles, hvisited, hsymbols, hstore, hvalid⟩ := hrepeats.twoPasses htwo
      obtain ⟨again, report', hdone, hsymbols', hstore'⟩ := htour.emit_done hfiles hvisited hvalid
      -- The tables are those with which the first call began to emit.
      have hknown : s.known (Step.acts steps) = Act.declareAll (Step.acts steps) {} := if_pos htwo
      have hsame : run.symbols = s.known (Step.acts steps) := by
        rw [hfinished.symbols, hknown]
        exact Act.declareAll_again _ Symbols.distinct_empty
      rw [hsymbols, hsame] at hsymbols'
      rw [hstore, hsymbols, hsame, hfinished.store] at hstore'
      refine ⟨again, report', hprocess.trans hdone, ?_, ?_, ?_⟩
      · rw [hstore', hfinished.store]
        exact Store.definitions_again _
      · rw [hstore', hfinished.store]
        exact Store.references_again _ _
      · rw [hsymbols', hfinished.symbols]

theorem same_call_changes_nothing_mutual :
    ∃ run report again report', mutualUnit.process ["foo.h", "user.m"] {} = .done run report ∧
      mutualUnit.process ["foo.h", "user.m"] run = .done again report' ∧
      again.store.definitions = run.store.definitions ∧
      again.store.references = run.store.references ∧ again.symbols = run.symbols := by
  obtain ⟨run, report, hdone⟩ := mutualUnit_done ["foo.h", "user.m"]
  obtain ⟨again, report', hagain, hunchanged⟩ := same_call_changes_nothing hdone
  exact ⟨run, report, again, report', hdone, hagain, hunchanged⟩

end Session

end SymbolGraph
