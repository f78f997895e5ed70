import SymbolGraph.Proofs.Dict
import SymbolGraph.Proofs.Script
import SymbolGraph.Walk

/-!
# `Proofs.Act` — what one step reads, writes and leaves behind

`perform` takes the state of a walk and the tables of the unit together.  Seen
apart, the two hardly meet:

    the walk's state behind a step   depends on the walk's state before it
    the tables behind a step         depend on the tables before them
    what a step writes               depends on both

So a walk can be laid out in advance, as a list of ACTS: each step with the
state in which it is performed.  The tables are all that is left to run
through, and `emitAll` does that.  Only one act writes a definition or not as
the tables say: the body of a method, which writes none if its method was
announced.
-/

namespace SymbolGraph

/-- A step of the walk of a file, with the state of the walk before it. -/
structure Act where
  file : String
  walker : Walker
  action : Action

namespace Action

/-- The state of a walk behind a step. -/
def moved (a : Action) (w : Walker) : Walker := (perform "" a w {}).1

/-- The tables behind a step. -/
def declared (a : Action) (t : Symbols) : Symbols := (perform "" a {} t).2.1

/-- The method whose body the step finds. -/
def implemented? : Action → Option String
  | .implement _ _ key _ => some key.path
  | _ => none

/-- The block number behind a step. -/
def nextBlock (block : Nat) : Action → Nat
  | .openBlock => block + 1
  | .openRoutine => 0
  | _ => block

/-- The path under which a step in a block writes a definition.  The body of a
method counts, although it writes none if the method was announced. -/
def definedPath? (block : Nat) : Action → Option String
  | .define _ _ _ key _ _ | .implement _ _ key _ => some key.path
  | .declareLocal c ident _ _ _ => some ((c.key ident.text).inBlock block).path
  | _ => none

end Action

theorem perform_walker (file : String) (a : Action) (w : Walker) (t : Symbols) :
    (perform file a w t).1 = a.moved w := by
  unfold Action.moved perform
  cases a with
  | implement => dsimp only; split <;> rfl
  | _ => rfl

theorem perform_symbols (file : String) (a : Action) (w : Walker) (t : Symbols) :
    (perform file a w t).2.1 = a.declared t := by
  unfold Action.declared perform
  cases a with
  | implement => dsimp only; split <;> rfl
  | _ => rfl

theorem moved_block (a : Action) (w : Walker) : (a.moved w).block = a.nextBlock w.block := by
  unfold Action.moved perform
  cases a with
  | implement => dsimp only; split <;> rfl
  | _ => rfl

/-- The state of a walk behind some steps. -/
def Walker.after (w : Walker) (steps : List Action) : Walker :=
  steps.foldl (fun w a => a.moved w) w

theorem Walker.after_append (w : Walker) (as bs : List Action) :
    w.after (as ++ bs) = (w.after as).after bs := List.foldl_append

/-- Only the announcement of a method touches the announced methods. -/
theorem mem_declared {a : Action} {t : Symbols} {path : String} :
    path ∈ (a.declared t).declaredMethods ↔
      a = .declareMethod path ∨ path ∈ t.declaredMethods := by
  unfold Action.declared perform
  cases a with
  | declareMethod p =>
      simp only [Symbols.declareMethod, mem_insertNew, Action.declareMethod.injEq]
      rw [eq_comm]
  | implement => dsimp only; split <;> simp
  | _ => simp [Symbols.registerClass, Symbols.setMember, Symbols.setGlobal, Symbols.addType,
      Symbols.addFunction]

/-! ## What an act writes -/

namespace Emission

def definition? : Emission → Option Definition
  | .definition d => some d
  | _ => none

def reference? : Emission → Option Reference
  | .reference r => some r
  | _ => none

/-- The file that a record belongs to. -/
def file? : Emission → Option String
  | .definition d => some d.file
  | .reference r => some r.file
  | .skipped .. => none

theorem mem_filterMap_definition? {es : List Emission} {d : Definition} :
    d ∈ es.filterMap definition? ↔ .definition d ∈ es := by
  rw [List.mem_filterMap]
  constructor
  · rintro ⟨e, he, heq⟩
    cases e with
    | definition => cases heq; exact he
    | reference | skipped => cases heq
  · exact fun h => ⟨_, h, rfl⟩

theorem mem_filterMap_reference? {es : List Emission} {r : Reference} :
    r ∈ es.filterMap reference? ↔ .reference r ∈ es := by
  rw [List.mem_filterMap]
  constructor
  · rintro ⟨e, he, heq⟩
    cases e with
    | reference => cases heq; exact he
    | definition | skipped => cases heq
  · exact fun h => ⟨_, h, rfl⟩

end Emission

namespace Act

/-- What an act writes. -/
def emissions (a : Act) (t : Symbols) : List Emission := (perform a.file a.action a.walker t).2.2

/-- The definition that an act writes, or would write if no method were
announced. -/
def candidate? (a : Act) : Option Definition :=
  match a.action with
  | .define ident owner kind key name modifiers =>
      some ⟨key, kind, name, a.file, ident.start, ident.stop, owner.start, owner.stop, modifiers⟩
  | .declareLocal c ident owner kind _ =>
      some ⟨(c.key ident.text).inBlock a.walker.block, kind, ident.text, a.file, ident.start,
        ident.stop, owner.start, owner.stop, []⟩
  | .implement anchor owner key name =>
      some ⟨key, .method, name, a.file, anchor.start, anchor.stop, owner.start, owner.stop, []⟩
  | _ => none

/-- The act finds the body of a method that was announced. -/
def IsAnnounced (a : Act) (t : Symbols) : Prop :=
  ∃ path ∈ a.action.implemented?, path ∈ t.declaredMethods

theorem candidate?_path (a : Act) :
    a.candidate?.map (·.key.path) = a.action.definedPath? a.walker.block := by
  unfold candidate? Action.definedPath?
  split <;> simp_all

/-- The definitions of an act: its candidate, unless that was announced. -/
theorem definitions_emissions (a : Act) (t : Symbols) [Decidable (a.IsAnnounced t)] :
    (a.emissions t).filterMap Emission.definition? =
      if a.IsAnnounced t then [] else a.candidate?.toList := by
  obtain ⟨file, w, action⟩ := a
  unfold emissions perform
  cases action with
  | implement anchor owner key name =>
      dsimp only
      by_cases h : key.path ∈ t.declaredMethods
      · rw [if_pos h, if_pos ⟨key.path, rfl, h⟩]
        rfl
      · rw [if_neg h, if_neg fun ⟨path, hpath, hmem⟩ => h (by cases hpath; exact hmem)]
        rfl
  | access | send =>
      rw [if_neg fun ⟨path, hpath, _⟩ => by cases hpath]
      simp [candidate?, Emission.refer, Emission.definition?, List.filterMap_map, Function.comp_def]
  | _ =>
      rw [if_neg fun ⟨path, hpath, _⟩ => by cases hpath]
      rfl

theorem file?_of_mem_define {file : String} {ident owner : Excerpt} {kind : Kind} {key : Key}
    {name : String} {modifiers : List String} {e : Emission}
    (h : e ∈ Emission.define file ident owner kind key name modifiers) : e.file? = some file := by
  simp only [Emission.define, List.mem_cons, List.not_mem_nil, or_false] at h
  rcases h with rfl | rfl <;> rfl

/-- Whatever a walk writes belongs to the file it walks. -/
theorem file?_of_mem_emissions {a : Act} {t : Symbols} {e : Emission} (h : e ∈ a.emissions t) :
    e.file? = some a.file ∨ e.file? = none := by
  obtain ⟨file, w, action⟩ := a
  unfold emissions perform at h
  cases action with
  | define | declareLocal => exact Or.inl (file?_of_mem_define h)
  | implement =>
      dsimp only at h
      split at h
      · rw [List.mem_singleton.mp h]
        exact Or.inl rfl
      · exact Or.inl (file?_of_mem_define h)
  | refer | read =>
      rw [List.mem_singleton.mp h]
      exact Or.inl rfl
  | access | send =>
      obtain ⟨owner, -, rfl⟩ := List.mem_map.mp h
      exact Or.inl rfl
  | skip =>
      rw [List.mem_singleton.mp h]
      exact Or.inr rfl
  | _ => exact absurd h List.not_mem_nil

theorem file_of_mem_references {a : Act} {t : Symbols} {r : Reference}
    (h : .reference r ∈ a.emissions t) : r.file = a.file := by
  simpa [Emission.file?] using file?_of_mem_emissions h

/-! ## Running through the tables -/

/-- The tables behind some acts. -/
def declareAll (acts : List Act) (t : Symbols) : Symbols :=
  acts.foldl (fun t a => a.action.declared t) t

/-- What some acts write, one after the other. -/
def emitAll (t : Symbols) : List Act → List Emission
  | [] => []
  | a :: rest => a.emissions t ++ emitAll (a.action.declared t) rest

/-- What the acts of one file write, among the acts of others. -/
def emitFor (file : String) (t : Symbols) : List Act → List Emission
  | [] => []
  | a :: rest =>
      (if a.file = file then a.emissions t else []) ++ emitFor file (a.action.declared t) rest

/-- The definitions that some acts write. -/
def definitions (t : Symbols) (acts : List Act) : List Definition :=
  (emitAll t acts).filterMap Emission.definition?

/-- The references that some acts write. -/
def references (t : Symbols) (acts : List Act) : List Reference :=
  (emitAll t acts).filterMap Emission.reference?

theorem declareAll_append (as bs : List Act) (t : Symbols) :
    declareAll (as ++ bs) t = declareAll bs (declareAll as t) := by
  simp [declareAll]

theorem emitAll_append : ∀ (as bs : List Act) (t : Symbols),
    emitAll t (as ++ bs) = emitAll t as ++ emitAll (declareAll as t) bs
  | [], _, _ => rfl
  | a :: as, bs, t => by
      rw [List.cons_append, emitAll, emitAll, List.append_assoc, emitAll_append as bs]
      rfl

theorem emitFor_append (file : String) : ∀ (as bs : List Act) (t : Symbols),
    emitFor file t (as ++ bs) = emitFor file t as ++ emitFor file (declareAll as t) bs
  | [], _, _ => rfl
  | a :: as, bs, t => by
      rw [List.cons_append, emitFor, emitFor, List.append_assoc, emitFor_append file as bs]
      rfl

theorem emitFor_of_ne {file : String} : ∀ {acts : List Act} {t : Symbols},
    (∀ a ∈ acts, a.file ≠ file) → emitFor file t acts = []
  | [], _, _ => rfl
  | a :: rest, t, h => by
      rw [emitFor, if_neg (h a List.mem_cons_self), List.nil_append]
      exact emitFor_of_ne fun b hb => h b (List.mem_cons_of_mem _ hb)

theorem mem_declareAll {path : String} : ∀ {acts : List Act} {t : Symbols},
    path ∈ (declareAll acts t).declaredMethods ↔
      (∃ a ∈ acts, a.action = .declareMethod path) ∨ path ∈ t.declaredMethods
  | [], t => by simp [declareAll]
  | a :: rest, t => by
      have hrest : path ∈ (declareAll rest (a.action.declared t)).declaredMethods ↔ _ :=
        mem_declareAll
      rw [mem_declared] at hrest
      rw [List.exists_mem_cons_iff, or_assoc, or_left_comm]
      exact hrest

/-- What is written is written by one of the acts, with tables that the acts
before it have filled. -/
theorem mem_emitAll {e : Emission} : ∀ {acts : List Act} {t : Symbols},
    e ∈ emitAll t acts ↔
      ∃ before a after, acts = before ++ a :: after ∧ e ∈ a.emissions (declareAll before t)
  | [], t => by simp [emitAll]
  | a :: rest, t => by
      rw [emitAll, List.mem_append, mem_emitAll]
      constructor
      · rintro (h | ⟨before, b, after, rfl, h⟩)
        · exact ⟨[], a, rest, rfl, h⟩
        · exact ⟨a :: before, b, after, rfl, h⟩
      · rintro ⟨before, b, after, heq, h⟩
        cases before with
        | nil =>
            obtain ⟨rfl, rfl⟩ := List.cons.inj heq
            exact Or.inl h
        | cons c before =>
            obtain ⟨rfl, rfl⟩ := List.cons.inj heq
            exact Or.inr ⟨before, b, after, rfl, h⟩

end Act

/-! ## Announcements -/

/-- Right behind the announcement of a method stands its definition. -/
def Announced : List Action → Prop
  | [] => True
  | a :: rest =>
      (∀ path, a = .declareMethod path → ∃ d ∈ rest.head?, d.Defines path) ∧ Announced rest

theorem Announced.append : ∀ {as bs : List Action}, Announced as → Announced bs →
    Announced (as ++ bs)
  | [], _, _, hb => hb
  | a :: as, bs, ⟨ha, has⟩, hb => by
      refine ⟨fun path hpath => ?_, has.append hb⟩
      obtain ⟨d, hd, hdef⟩ := ha path hpath
      refine ⟨d, ?_, hdef⟩
      cases as with
      | nil => cases hd
      | cons => exact hd

theorem Announced.cons {a : Action} {as : List Action} (ha : ∀ path, a ≠ .declareMethod path)
    (has : Announced as) : Announced (a :: as) := ⟨fun path hpath => absurd hpath (ha path), has⟩

theorem Action.IsPlain.ne_declareMethod {c : Context} {a : Action} (h : a.IsPlain c)
    (path : String) : a ≠ .declareMethod path := by
  rintro rfl
  exact h

/-- The steps of a tree announce nothing that they do not define. -/
theorem Script.announced {c : Context} {as : List Action} (h : Script c as) : Announced as := by
  induction h with
  | nil => trivial
  | append _ _ iha ihb => exact iha.append ihb
  | plain ha => exact .cons ha.ne_declareMethod trivial
  | @entered _ _ b _ hgrounded hb =>
      refine ⟨fun path hpath => ?_, .cons hb.ne_declareMethod trivial⟩
      have hmethod : TableEntry.method path ∈ (Action.declareMethod path).entries := by
        simp [Action.entries]
      rcases hgrounded (.method path) (hpath ▸ hmethod) with hdefines | ⟨_, -, htable⟩
      · exact ⟨b, rfl, hdefines⟩
      · cases htable
  | recorded ha _ hb =>
      rcases ha with rfl | rfl
      · exact .cons hb.ne_declareMethod (.cons (fun _ => nofun) trivial)
      · exact .cons hb.ne_declareMethod (.cons (fun _ => nofun) trivial)
  | classScope _ hmention _ _ _ ihbefore ihbetween ihbody =>
      have hclose : Announced [.closeScope] := .cons (fun _ => nofun) trivial
      exact .cons hmention.ne_declareMethod (ihbefore.append (.cons (fun _ => nofun)
        (ihbetween.append (.cons (fun _ => nofun) (ihbody.append hclose)))))
  | block _ ih => exact .cons (fun _ => nofun) (ih.append (.cons (fun _ => nofun) trivial))
  | routine _ ih => exact .cons (fun _ => nofun) (ih.append (.cons (fun _ => nofun) trivial))

theorem Announced.exists_defines {path : String} : ∀ {as : List Action}, Announced as →
    .declareMethod path ∈ as → ∃ d ∈ as, d.Defines path
  | a :: rest, ⟨ha, hrest⟩, h => by
      rcases List.mem_cons.mp h with rfl | h
      · obtain ⟨d, hd, hdef⟩ := ha path rfl
        exact ⟨d, List.mem_cons_of_mem _ (List.mem_of_mem_head? hd), hdef⟩
      · obtain ⟨d, hd, hdef⟩ := hrest.exists_defines h
        exact ⟨d, List.mem_cons_of_mem _ hd, hdef⟩

end SymbolGraph
