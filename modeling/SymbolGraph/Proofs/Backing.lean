import SymbolGraph.Proofs.Calls
import SymbolGraph.Proofs.SelfReference
import SymbolGraph.Proofs.Tables

/-!
# `Proofs.Backing` — the tables hold nothing that the graph does not show

The tables outlive a call, and so does the store, but no step writes to both: an entry is
made by one step, and what stands for it in the graph is written by another.  In a file
the two stand side by side, with no inclusion between them, so that no call ends between
them, not even one that halts:

    the steps of a tree ground every entry that they make     `Script.grounded`
    so do the acts of a traversal, wherever it stops          `Traversal.acts_grounded`
    grounded acts keep the tables backed by the store         `Symbols.Backed.declareAll`

Calls in one pass write what their acts emit, all of it.  Hence the tables are backed in
every state that such calls lead to.
-/

namespace SymbolGraph

open Step

/-! ## Every entry has its ground -/

/-- Each entry is grounded: so far, or by the step that makes it, or by the next step. -/
def Grounded (known : TableEntry → Prop) : List Action → Prop
  | [] => True
  | a :: rest =>
      (∀ e ∈ a.entries, known e ∨ e.GroundedBy a ∨ ∃ b ∈ rest.head?, e.GroundedBy b) ∧
        Grounded (fun e => known e ∨ e.GroundedBy a) rest

namespace Grounded

variable {known more : TableEntry → Prop} {as bs : List Action}

theorem mono (h : Grounded known as) (hmore : ∀ e, known e → more e) : Grounded more as := by
  induction as generalizing known more with
  | nil => trivial
  | cons a rest ih =>
      obtain ⟨ha, hrest⟩ := h
      exact ⟨fun e he => (ha e he).imp_left (hmore e), ih hrest fun e => Or.imp_left (hmore e)⟩

/-- The steps behind may rest on those before. -/
theorem append (h : Grounded known as)
    (h' : Grounded (fun e => known e ∨ ∃ a ∈ as, e.GroundedBy a) bs) :
    Grounded known (as ++ bs) := by
  induction as generalizing known with
  | nil => exact h'.mono fun e he => he.resolve_right fun ⟨_, ha, _⟩ => List.not_mem_nil ha
  | cons a rest ih =>
      obtain ⟨ha, hrest⟩ := h
      refine ⟨fun e he => ?_, ih hrest (h'.mono fun e he => ?_)⟩
      · refine (ha e he).imp_right (Or.imp_right ?_)
        rintro ⟨b, hb, hground⟩
        cases rest with
        | nil => cases hb
        | cons => exact ⟨b, hb, hground⟩
      · rwa [List.exists_mem_cons_iff, ← or_assoc] at he

theorem cons {a : Action} (ha : a.entries = []) (h : Grounded known as) :
    Grounded known (a :: as) := by
  refine ⟨fun e he => ?_, h.mono fun e => Or.inl⟩
  rw [ha] at he
  cases he

/-- The members of a class rest on its registration, which rests on its mention. -/
theorem classScope {className : String} {mention : Action} {before between body : List Action}
    (hrefers : mention.Refers className) (hmention : mention.entries = [])
    (hbefore : Grounded known before) (hbetween : Grounded known between)
    (hbody : Grounded (fun e => known e ∨ e = .table className) body) :
    Grounded known (mention :: (before ++ .registerClass className ::
      (between ++ .openClass :: (body ++ [.closeScope])))) := by
  refine ⟨by simp [hmention], append (hbefore.mono fun _ => Or.inl) ⟨fun e he => ?_, ?_⟩⟩
  · simp only [Action.entries, List.mem_cons, List.not_mem_nil, or_false] at he
    rcases he with rfl | rfl | rfl
    · exact Or.inr (Or.inl rfl)
    · exact Or.inl (Or.inl (Or.inr hrefers))
    · exact Or.inr (Or.inl (Or.inr ⟨rfl, rfl⟩))
  · refine append (hbetween.mono fun e he => Or.inl (Or.inl (Or.inl he))) (.cons rfl ?_)
    refine append (hbody.mono ?_) (.cons rfl trivial)
    rintro e (he | rfl)
    · exact Or.inl (Or.inl (Or.inl (Or.inl he)))
    · exact Or.inl (Or.inr rfl)

theorem exists_ground (h : Grounded known as) {a : Action} (ha : a ∈ as) {e : TableEntry}
    (he : e ∈ a.entries) : known e ∨ ∃ b ∈ as, e.GroundedBy b := by
  induction as generalizing known with
  | nil => cases ha
  | cons first rest ih =>
      obtain ⟨hfirst, hrest⟩ := h
      rcases List.mem_cons.mp ha with rfl | ha
      · refine (hfirst e he).imp_right ?_
        rintro (hself | ⟨b, hb, hground⟩)
        · exact ⟨a, List.mem_cons_self, hself⟩
        · exact ⟨b, List.mem_cons_of_mem _ (List.mem_of_mem_head? hb), hground⟩
      · rw [List.exists_mem_cons_iff, ← or_assoc]
        exact ih hrest ha

end Grounded

theorem Action.IsPlain.entries {c : Context} {a : Action} (h : a.IsPlain c) : a.entries = [] := by
  cases a with
  | registerClass | addType | addFunction | declareMethod | setGlobal | setMember => cases h
  | _ => rfl

/-- An inclusion stands for nothing. -/
theorem TableEntry.not_groundedBy_inclusion {e : TableEntry} {path : String} :
    ¬ e.GroundedBy (.inclusion path) := by
  intro h
  cases e with
  | global | function | type => exact h
  | method =>
      obtain ⟨_, _, _, _, _, _, heq, -⟩ := h
      cases heq
  | member =>
      rcases h with ⟨_, _, _, _, _, _, heq, -⟩ | ⟨-, heq⟩
      · cases heq
      · cases heq
  | table => cases h

theorem Grounded.of_inclusion {known : TableEntry → Prop} {path : String} {as : List Action}
    (h : Grounded known (.inclusion path :: as)) : Grounded known as :=
  h.2.mono fun _ he => he.resolve_right TableEntry.not_groundedBy_inclusion

/-- The steps of a tree ground what they enter; the class around them was registered. -/
theorem Script.grounded {c : Context} {as : List Action} (h : Script c as)
    {known : TableEntry → Prop} (hclass : ∀ className ∈ c.className, known (.table className)) :
    Grounded known as := by
  induction h generalizing known with
  | nil => trivial
  | append _ _ iha ihb => exact (iha hclass).append ((ihb hclass).mono fun _ => Or.inl)
  | plain ha => exact .cons ha.entries trivial
  | @entered _ _ b _ hground hb =>
      refine ⟨fun e he => ?_, .cons hb.entries trivial⟩
      rcases hground e he with hground | ⟨className, hmem, rfl⟩
      · exact Or.inr (Or.inr ⟨b, rfl, hground⟩)
      · exact Or.inl (hclass className hmem)
  | recorded ha hrefers hb =>
      refine ⟨by simp [hb.entries], fun e he => Or.inl (Or.inr ?_), trivial⟩
      rcases ha with rfl | rfl
      · rw [List.mem_singleton.mp he]
        exact hrefers
      · rw [List.mem_singleton.mp he]
        exact hrefers
  | classScope hrefers hmention _ _ _ ihbefore ihbetween ihbody =>
      refine .classScope hrefers hmention.entries (ihbefore hclass) (ihbetween hclass)
        (ihbody fun _ hmem => Or.inr ?_)
      rw [Option.mem_some_iff.mp hmem]
  | block _ ih => exact .cons rfl ((ih hclass).append (.cons rfl trivial))
  | routine _ ih => exact .cons rfl ((ih hclass).append (.cons rfl trivial))

theorem Session.tasks_grounded (s : Session) (file : String) {known : TableEntry → Prop} :
    Grounded known ((s.tasks file).map Task.action) := by
  unfold tasks
  split
  · next tree _ =>
    rw [Task.map_action_ofActions]
    exact (Node.script {} tree).grounded nofun
  · trivial

/-- What stands side by side in a file is done, or is left undone, together. -/
theorem Traversal.acts_grounded {s : Session} {files visited : List String} {tasks : List Task}
    {steps : List Step} {stop : Option String} (h : Traversal s files visited tasks steps stop)
    {known : TableEntry → Prop} (htasks : Grounded known (tasks.map Task.action)) :
    Grounded known ((Step.acts steps).map Act.action) := by
  induction h generalizing known with
  | done => trivial
  | @act visited a rest steps stop hrest ih =>
      obtain ⟨ha, hlater⟩ := htasks
      refine ⟨fun e he => ?_, ih hlater⟩
      refine (ha e he).imp_right (Or.imp_right ?_)
      rintro ⟨b, hb, hground⟩
      cases hrest with
      | done => cases hb
      | act => exact ⟨b, hb, hground⟩
      | pass | visit | interrupted | unreadable =>
          -- Only here could other files come between an entry and its ground.
          cases hb
          exact absurd hground TableEntry.not_groundedBy_inclusion
  | pass _ _ ih => exact ih htasks.of_inclusion
  | @visit _ _ _ file _ _ _ _ _ _ _ _ _ ihinner ihrest =>
      simp only [acts_enter, acts_append, acts_leave, List.map_append]
      exact (ihinner (s.tasks_grounded file)).append
        ((ihrest htasks.of_inclusion).mono fun _ => Or.inl)
  | @interrupted _ _ _ file _ _ _ _ _ _ _ ihinner => exact ihinner (s.tasks_grounded file)
  | unreadable => trivial

/-! ## What the tables hold -/

namespace Symbols

/-- The place is filled. -/
def Holds (t : Symbols) : TableEntry → Prop
  | .global name => name ∈ t.globals.keys
  | .function path => path ∈ t.functions
  | .type name => name ∈ t.types
  | .method path => path ∈ t.declaredMethods
  | .member className name => (t.member? (some className) name).isSome
  | .table className => className ∈ t.members.keys

theorem holds_setGlobal {t : Symbols} {name : String} {type : Option String} {e : TableEntry} :
    (t.setGlobal name type).Holds e ↔ e ∈ (Action.setGlobal name type).entries ∨ t.Holds e := by
  cases e with
  | global other => simp [Holds, setGlobal, Action.entries, Dict.mem_keys_set]
  | _ => simp [Holds, setGlobal, Action.entries, member?, membersOf]

theorem holds_setMember {t : Symbols} {className name : String} {type : Option String}
    {e : TableEntry} : (t.setMember className name type).Holds e ↔
      e ∈ (Action.setMember className name type).entries ∨ t.Holds e := by
  cases e with
  | member other otherName =>
      show ((t.setMember className name type).at? (.member other otherName)).isSome ↔ _
      rw [at?_setMember]
      by_cases hcell : Cell.member className name = .member other otherName
      · cases hcell
        simp [Action.entries]
      · have hother : TableEntry.member other otherName ∉
            (Action.setMember className name type).entries := by
          intro he
          rcases List.mem_pair.mp he with he | he
          · cases he
          · cases he
            exact hcell rfl
        rw [if_neg hcell]
        exact (or_iff_right hother).symm
  | table other => simp [Holds, setMember, Action.entries, Dict.mem_keys_set]
  | _ => simp [Holds, setMember, Action.entries]

theorem holds_addType {t : Symbols} {name : String} {e : TableEntry} :
    (t.addType name).Holds e ↔ e ∈ (Action.addType name).entries ∨ t.Holds e := by
  cases e with
  | type other => simp [Holds, addType, Action.entries, mem_insertNew]
  | _ => simp [Holds, addType, Action.entries, member?, membersOf]

theorem holds_addFunction {t : Symbols} {path : String} {e : TableEntry} :
    (t.addFunction path).Holds e ↔ e ∈ (Action.addFunction path).entries ∨ t.Holds e := by
  cases e with
  | function other => simp [Holds, addFunction, Action.entries, mem_insertNew]
  | _ => simp [Holds, addFunction, Action.entries, member?, membersOf]

theorem holds_declareMethod {t : Symbols} {path : String} {e : TableEntry} :
    (t.declareMethod path).Holds e ↔ e ∈ (Action.declareMethod path).entries ∨ t.Holds e := by
  cases e with
  | function | method => simp [Holds, declareMethod, addFunction, Action.entries, mem_insertNew]
  | _ => simp [Holds, declareMethod, addFunction, Action.entries, member?, membersOf]

theorem holds_registerClass {t : Symbols} {name : String} {e : TableEntry} :
    (t.registerClass name).Holds e ↔ e ∈ (Action.registerClass name).entries ∨ t.Holds e := by
  rw [registerClass, holds_setMember, holds_addType]
  simp only [Action.entries, List.mem_cons, List.not_mem_nil, or_false, or_assoc]
  grind

/-- A step fills its entries, and empties none. -/
theorem holds_declared {t : Symbols} {a : Action} {e : TableEntry} :
    (a.declared t).Holds e ↔ e ∈ a.entries ∨ t.Holds e := by
  unfold Action.declared perform
  cases a with
  | setGlobal => exact holds_setGlobal
  | setMember => exact holds_setMember
  | registerClass => exact holds_registerClass
  | addType => exact holds_addType
  | addFunction => exact holds_addFunction
  | declareMethod => exact holds_declareMethod
  | implement =>
      dsimp only
      split <;> exact (or_iff_right List.not_mem_nil).symm
  | _ => exact (or_iff_right List.not_mem_nil).symm

theorem holds_declareAll {e : TableEntry} : ∀ {acts : List Act} {t : Symbols},
    (Act.declareAll acts t).Holds e ↔ (∃ a ∈ acts, e ∈ a.action.entries) ∨ t.Holds e
  | [], t => by simp [Act.declareAll]
  | a :: rest, t => by
      have hrest : (Act.declareAll rest (a.action.declared t)).Holds e ↔ _ := holds_declareAll
      rw [holds_declared] at hrest
      rw [List.exists_mem_cons_iff, or_assoc, or_left_comm]
      exact hrest

end Symbols

/-! ## What the store shows -/

/-- The store shows what the entry stands for; the table of a class, what belongs to it. -/
def TableEntry.BackedBy (t : Symbols) (store : Store) : TableEntry → Prop
  | .global name | .function name | .type name => ∃ r ∈ store.references, r.key.path = name
  | .method path => (store.get? path).isSome
  | .member className name =>
      name ≠ "self" → (store.get? (Key.member className name).path).isSome
  | .table className => t.Holds (.type className) ∧ t.Holds (.member className "self")

/-- All entries of the tables are backed. -/
def Symbols.Backed (t : Symbols) (store : Store) : Prop := ∀ e, t.Holds e → e.BackedBy t store

namespace TableEntry

variable {t u : Symbols} {store later : Store} {e : TableEntry}

/-- What backs an entry is never taken back. -/
theorem BackedBy.mono (h : e.BackedBy t store) (htables : ∀ e, t.Holds e → u.Holds e)
    (hreferences : ∀ r ∈ store.references, r ∈ later.references)
    (hdefinitions : ∀ path, (store.get? path).isSome → (later.get? path).isSome) :
    e.BackedBy u later := by
  cases e with
  | global | function | type =>
      obtain ⟨r, hr, hpath⟩ := h
      exact ⟨r, hreferences r hr, hpath⟩
  | method => exact hdefinitions _ h
  | member => exact fun hname => hdefinitions _ (h hname)
  | table => exact ⟨htables _ h.1, htables _ h.2⟩

end TableEntry

namespace Act

variable {acts : List Act} {t : Symbols} {store : Store} {path : String}

theorem exists_reference_emissions {a : Act} (h : a.action.Refers path) (t : Symbols) :
    ∃ r, .reference r ∈ a.emissions t ∧ r.key.path = path := by
  obtain ⟨file, w, action⟩ := a
  unfold emissions perform
  cases action with
  | define => exact ⟨_, List.mem_cons_of_mem _ List.mem_cons_self, h⟩
  | refer => exact ⟨_, List.mem_cons_self, h⟩
  | implement =>
      dsimp only
      split
      · exact ⟨_, List.mem_cons_self, h⟩
      · exact ⟨_, List.mem_cons_of_mem _ List.mem_cons_self, h⟩
  | _ => cases h

/-- A step that refers to a path leaves a reference to it in the store. -/
theorem exists_reference_of_refers (h : ∃ a ∈ acts, a.action.Refers path) :
    ∃ r ∈ (store.recordAll (emitAll t acts)).references, r.key.path = path := by
  obtain ⟨a, ha, hrefers⟩ := h
  obtain ⟨before, after, rfl⟩ := List.append_of_mem ha
  obtain ⟨r, hr, hpath⟩ := exists_reference_emissions hrefers (declareAll before t)
  have hwritten : r ∈ (emitAll t (before ++ a :: after)).filterMap Emission.reference? :=
    Emission.mem_filterMap_reference?.mpr (mem_emitAll.mpr ⟨before, a, after, rfl, hr⟩)
  obtain ⟨x, hx, hsame⟩ := Reference.exists_same_foldl_addTo (Or.inl hwritten)
  rw [Store.references_recordAll]
  exact ⟨x, hx, (Reference.path_eq_of_same hsame).trans hpath⟩

/-- A step that defines a path leaves a definition under it in the store. -/
theorem isSome_get?_of_defines (h : ∃ a ∈ acts, a.action.Defines path) :
    ((store.recordAll (emitAll t acts)).get? path).isSome := by
  rw [Store.get?_recordAll, Option.isSome_or, Bool.or_eq_true]
  exact Or.inl (Definition.lastUnder_isSome.mpr (exists_definition_of_defines h))

end Act

theorem TableEntry.backedBy_of_grounded {acts : List Act} {t : Symbols} {store : Store}
    {e : TableEntry} {b : Act} (hb : b ∈ acts) (h : e.GroundedBy b.action) :
    e.BackedBy (Act.declareAll acts t) (store.recordAll (Act.emitAll t acts)) := by
  cases e with
  | global | function | type => exact Act.exists_reference_of_refers ⟨b, hb, h⟩
  | method => exact Act.isSome_get?_of_defines ⟨b, hb, h⟩
  | member className name =>
      intro hname
      exact Act.isSome_get?_of_defines ⟨b, hb, h.resolve_right fun hself => hname hself.1⟩
  | table className =>
      have hentry : ∀ e ∈ (Action.registerClass className).entries,
          (Act.declareAll acts t).Holds e :=
        fun e he => Symbols.holds_declareAll.mpr (Or.inl ⟨b, hb, h.symm ▸ he⟩)
      exact ⟨hentry _ (by simp [Action.entries]), hentry _ (by simp [Action.entries])⟩

namespace Symbols.Backed

variable {t : Symbols} {store : Store}

theorem empty (store : Store) : ({} : Symbols).Backed store := by
  intro e he
  cases e <;> cases he

theorem flush (h : t.Backed store) : t.Backed store.flush :=
  fun e he => (h e he).mono (fun _ => id) (fun _ => id) fun _ => id

/-- Grounded acts keep the tables backed. -/
theorem declareAll {acts : List Act} (h : t.Backed store)
    (hground : Grounded (fun _ => False) (acts.map Act.action)) :
    (Act.declareAll acts t).Backed (store.recordAll (Act.emitAll t acts)) := by
  intro e he
  rcases holds_declareAll.mp he with ⟨a, ha, hentry⟩ | he
  · obtain ⟨action, haction, hgrounded⟩ :=
      (hground.exists_ground (List.mem_map_of_mem ha) hentry).resolve_left id
    obtain ⟨b, hb, rfl⟩ := List.mem_map.mp haction
    exact TableEntry.backedBy_of_grounded hb hgrounded
  · refine (h e he).mono (fun _ hold => holds_declareAll.mpr (Or.inr hold)) ?_ fun path hpath => ?_
    · rw [Store.references_recordAll]
      exact fun r hr => Reference.subset_foldl_addTo _ _ hr
    · rw [Store.get?_recordAll, Option.isSome_or, hpath, Bool.or_true]

end Symbols.Backed

namespace Session

variable {s : Session} {run : Run}

theorem roots_grounded (s : Session) (paths : List String) :
    Grounded (fun _ => False) ((s.roots paths).map Task.action) := by
  unfold roots
  induction s.configured paths with
  | nil => trivial
  | cons file rest ih => exact .cons rfl ih

theorem Walked.backed {paths : List String} {steps : List Step} {stop : Option String}
    {after : Run} (h : s.Walked paths run steps stop after) (hrun : run.symbols.Backed run.store) :
    after.symbols.Backed after.store := by
  have hacts := hrun.declareAll (h.traversal.acts_grounded (s.roots_grounded paths))
  rw [h.symbols]
  rcases h.store with hstore | hstore
  · exact hstore ▸ hacts
  · exact hstore ▸ hacts.flush

/-- In one pass, the tables are backed in every state that is reached. -/
theorem Reached.backed (hone : s.twoPass = false) (h : s.Reached run) :
    run.cache = [] ∧ run.symbols.Backed run.store := by
  induction h with
  | fresh => exact ⟨rfl, .empty _⟩
  | process sources paths _ ih =>
      obtain ⟨steps, stop, hwalked⟩ := exists_walked (s := { s with sources }) hone ih.1 paths
      exact ⟨hwalked.cache, hwalked.backed ih.2⟩
  | @processPath run sources origin path hreached ih =>
      have hvalid : ({ s with sources } : Session).CacheValid run.cache :=
        ih.1 ▸ cacheValid_nil { s with sources }
      obtain ⟨steps, stop, htraversal, heffect⟩ := processFile_effect origin path hvalid
      rw [processPath_of_pass hreached.pass]
      refine ⟨cache_of_effect heffect ih.1, ?_⟩
      rw [heffect.symbols, heffect.store]
      exact ih.2.declareAll (htraversal.acts_grounded (.cons rfl trivial))

end Session

/-! ## What the name of a member leads to -/

/-- What a construct writes, in a context and a state of the walk. -/
def Node.writes (n : Node) (file : String) (c : Context) (w : Walker) (t : Symbols) :
    List Emission := Act.emitAll t (Act.ofActions file (n.actions c) w)

theorem Walker.resolve_member {w : Walker} {t : Symbols} {c : Context} {className name : String}
    {type : Option String} (hclass : c.className = some className)
    (hscope : w.scopes.lookup name = none) (hparameter : w.parameters.get? name = none)
    (hmember : t.member? (some className) name = some type) :
    w.resolve t c name = .member className name := by
  simp only [resolve, hscope, hparameter, hclass, hmember]

/-- In a method of the class, the name leads to the member: by itself, where no local and
no parameter hides it, and behind `self` and `super`.  A class without a name has no
members behind these. -/
structure Symbols.LeadsToMember (t : Symbols) (className name : String) : Prop where
  bare (file : String) (c : Context) (w : Walker) (e : Excerpt) (ident : Option Excerpt) :
    c.className = some className → (ident.getD e).text = name → name ≠ "super" →
    w.scopes.lookup name = none → w.parameters.get? name = none →
    (Node.identifier e ident).writes file c w t =
      [.refer file (ident.getD e) (.member className name)]
  qualified (file : String) (c : Context) (w : Walker) (e receiver : Excerpt)
    (ident : Option Excerpt) (member : Excerpt) (arrow : Bool) :
    c.className = some className → receiver.text = "self" ∨ receiver.text = "super" →
    member.text = name →
    (Node.memberAccess e (some (.identifier receiver ident)) (some member) arrow).writes
        file c w t =
      if className = "" then [] else [.refer file member (.member className name)]

theorem Symbols.leadsToMember {t : Symbols} {className name : String} {type : Option String}
    (hname : name ≠ "self") (hmember : t.member? (some className) name = some type) :
    t.LeadsToMember className name where
  bare file c w e ident hclass hident hsuper hscope hparameter := by
    have hactions : (Node.identifier e ident).actions c = [.read c (ident.getD e)] := by
      rw [Node.actions, Action.readIdentifier, if_neg (hident ▸ hsuper), if_neg (hident ▸ hname)]
    have hresolve := w.resolve_member hclass hscope hparameter hmember
    rw [Node.writes, hactions]
    show [Emission.refer file (ident.getD e) (w.resolve t c (ident.getD e).text)] = _
    rw [hident, hresolve]
  qualified file c w e receiver ident member arrow hclass hreceiver hmember := by
    have hactions : (Node.memberAccess e (some (.identifier receiver ident)) (some member)
        arrow).actions c =
        if className = "" then [] else [.refer member (.member className name)] := by
      simp only [Node.actions, if_pos hreceiver, hclass, hmember]
    rw [Node.writes, hactions]
    split <;> rfl

/-- What the tables hold is in the store. -/
structure Symbols.ShownIn (t : Symbols) (store : Store) : Prop where
  members : ∀ className name type, t.member? (some className) name = some type →
    name ≠ "self" → (store.get? (className ++ "/" ++ name)).isSome
  methods : ∀ path ∈ t.declaredMethods, (store.get? path).isSome
  globals : ∀ name ∈ t.globals.keys, ∃ r ∈ store.references, r.key.path = name
  types : ∀ name ∈ t.types, ∃ r ∈ store.references, r.key.path = name
  functions : ∀ path ∈ t.functions, ∃ r ∈ store.references, r.key.path = path
  classes : ∀ className ∈ t.members.keys,
    className ∈ t.types ∧ (t.member? (some className) "self").isSome

theorem Symbols.Backed.shownIn {t : Symbols} {store : Store} (h : t.Backed store) :
    t.ShownIn store where
  members className name type hmember :=
    h (.member className name) (Option.isSome_iff_exists.mpr ⟨type, hmember⟩)
  methods path := h (.method path)
  globals name := h (.global name)
  types name := h (.type name)
  functions path := h (.function path)
  classes className := h (.table className)

namespace Session

/-- In every state that calls in one pass lead to, what the tables hold is in the store;
so the name of a member leads to a definition. -/
theorem tables_shown_in_store {s : Session} (hone : s.twoPass = false) {run : Run}
    (h : s.Reached run) :
    run.symbols.ShownIn run.store ∧
      ∀ className name type, name ≠ "self" →
        run.symbols.member? (some className) name = some type →
        (run.store.get? (className ++ "/" ++ name)).isSome ∧
          run.symbols.LeadsToMember className name := by
  have hshown := (h.backed hone).2.shownIn
  refine ⟨hshown, fun className name type hname hmember => ⟨?_, ?_⟩⟩
  · exact hshown.members className name type hmember hname
  · exact Symbols.leadsToMember hname hmember

theorem tables_shown_in_store_broken :
    brokenUnit.Reached brokenRun ∧
      brokenRun.symbols.member? (some "Foo") "count" = some (some "int") ∧
      brokenRun.symbols.ShownIn brokenRun.store ∧
      (brokenRun.store.get? "Foo/count").isSome ∧
      brokenRun.symbols.LeadsToMember "Foo" "count" := by
  have hreached : brokenUnit.Reached brokenRun :=
    Reached.fresh.process brokenUnit.sources ["foo.h", "user.m", "gone.m"]
  have hmember : brokenRun.symbols.member? (some "Foo") "count" = some (some "int") := by
    decide +kernel
  obtain ⟨hshown, hleads⟩ := tables_shown_in_store rfl hreached
  exact ⟨hreached, hmember, hshown, hleads "Foo" "count" (some "int") (by decide) hmember⟩

/-- A class without a name, with a member that is read behind `self`. -/
def namelessTree : Node :=
  .unit {} [
    .classImplementation {} (some ⟨"", 0, 0⟩) none none
      [⟨{}, [.primitive ⟨"int", 4, 6⟩ []], [⟨"x", 8, 8⟩], none⟩]
      [.methodDefinition {} false none (some ⟨{}, some ⟨"run", 12, 14⟩, []⟩)
        (some (.memberAccess {} (some (.identifier ⟨"self", 18, 21⟩ none))
          (some ⟨"x", 23, 23⟩) false))]]

def namelessUnit : Session :=
  { mutualUnit with
    twoPass := false
    sources := { mutualUnit.sources with parse := fun _ _ => ([], .ok ⟨namelessTree, []⟩) } }

def namelessRun : Run := (namelessUnit.process ["a.m"] {}).run

/-- The member is known and has its definition, but `self.x` refers to nothing. -/
theorem nameless_self_leads_nowhere :
    namelessUnit.Reached namelessRun ∧
      namelessRun.symbols.member? (some "") "x" = some (some "int") ∧
      (namelessRun.store.get? "/x").isSome ∧
      ¬ ∃ r ∈ namelessRun.store.references, r.start = 23 ∧ r.key.path = "/x" := by
  refine ⟨Reached.fresh.process namelessUnit.sources ["a.m"], ?_, ?_, ?_⟩ <;> decide +kernel

end Session

end SymbolGraph
