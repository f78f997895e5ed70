import SymbolGraph.Proofs.Lexical
import SymbolGraph.Proofs.SelectorSpan
import SymbolGraph.Proofs.VisitOrder

/-!
# `Proofs.ByteSpan` — records point at the bytes of their names

From a tree that is placed in its source to the records of a run: its readings are
sound, by induction on the tree; so the steps of its file are faithful; so what they
write lies in the source and, selectors apart, has the name that stands there.  The
last step needs to know one thing about the state of a walk: a local is found under
the name that its key ends with.
-/

namespace SymbolGraph

open SymbolGraph.Action

variable {src : Octets}

/-! ## Readings of placed trees -/

/-- Names are cut from the source, and spans lie in it. -/
def Standard.cut (src : Octets) : Standard where
  Name := Excerpt.Cut src
  Span := Excerpt.Within src
  span_of_name := Excerpt.Cut.within

theorem Reading.selectorSpans_of_placed {children : List Reading} {low high : Int}
    (h : ∀ c ∈ children, c.Placed src) (hordered : Ordered low high children) :
    SelectorSpans (.cut src) src children := by
  have hmethod := placed_methodState h hordered
  exact ⟨hmethod.anchor, fun k hk => (hmethod.keywords k hk).excerpt,
    (placed_messageState h hordered).anchor⟩

namespace Cst

-- On the tree and its children at once: a node hands its own range down as the bounds.
mutual

theorem sound_reading : ∀ {c : Cst} {low high : Int}, c.Placed low high → 0 ≤ low →
    high ≤ src.size → (c.reading src).Sound (.cut src) ∧ (c.reading src).Placed src
  | node head children, low, high, ⟨hstart, hnonempty, hstop, hchildren⟩, hlow, hhigh => by
      obtain ⟨hall, hordered⟩ :=
        sound_readings hchildren (Int.le_of_lt hnonempty) (Int.le_trans hlow hstart)
          (Int.le_trans hstop hhigh)
      have hplaced := fun r hr => (hall r hr).2
      have hfits : head.Fits src := ⟨by omega, hnonempty, by omega⟩
      rw [reading]
      exact ⟨Reading.sound_make hfits.cut (fun r hr => (hall r hr).1)
        (Reading.selectorSpans_of_placed hplaced hordered), .intro hfits rfl hordered hplaced⟩

theorem sound_readings : ∀ {cs : List Cst} {low high : Int}, PlacedAll low high cs →
    low ≤ high → 0 ≤ low → high ≤ src.size →
      (∀ r ∈ readings src cs, r.Sound (.cut src) ∧ r.Placed src) ∧
        Reading.Ordered low high (readings src cs)
  | [], _, _, _, hle, _, _ => by
      rw [readings]
      exact ⟨fun _ => nofun, hle⟩
  | node head children :: rest, low, high, ⟨hc, hrest⟩, hle, hlow, hhigh => by
      have hsound := sound_reading hc hlow hhigh
      obtain ⟨hstart, hnonempty, hstop, -⟩ := hc
      obtain ⟨hall, hordered⟩ := sound_readings hrest hstop
        (Int.le_trans hlow (Int.le_trans hstart (Int.le_of_lt hnonempty))) hhigh
      rw [readings]
      refine ⟨List.forall_mem_cons.mpr ⟨hsound, hall⟩, ?_, ?_⟩
      · rw [head_reading]
        exact hstart
      · rw [head_reading]
        exact hordered

end

theorem faithful_tree {root : Cst} (h : root.Placed 0 src.size) :
    (root.tree src).Faithful (.cut src) := by
  obtain ⟨head, children⟩ := root
  obtain ⟨hstart, hnonempty, hstop, hchildren⟩ := h
  have hall := (sound_readings hchildren (Int.le_of_lt hnonempty) hstart hstop).1
  exact Node.faithful_unit (Reading.faithful_of_nodes fun r hr => (hall r hr).1)

end Cst

/-! ## Locals are found under their names -/

/-- What the open scopes know under a name has a key that ends with the name, if that is
not empty. -/
def Scopes.Named (s : Scopes) : Prop :=
  ∀ frame ∈ s.stack, ∀ name b, Dict.get? name frame = some b → name ≠ "" → b.key.name = name

namespace Scopes.Named

variable {s : Scopes} (h : s.Named) (hvalid : s.Valid)
include h hvalid

theorem push : s.push.Named := by
  rw [Scopes.Named, stack_push hvalid]
  exact List.forall_mem_cons.mpr ⟨fun _ _ => nofun, h⟩

theorem pop : s.pop.Named := by
  by_cases hdeep : 1 < s.stack.length
  · rw [Scopes.Named, stack_pop hvalid hdeep]
    exact fun frame hframe => h frame (List.mem_of_mem_tail hframe)
  · rw [length_stack hvalid] at hdeep
    rw [Scopes.pop, pop?, if_pos (by omega)]
    exact h

theorem declare {b : Binding} (hb : b.name ≠ "" → b.key.name = b.name) :
    (s.declare b).Named := by
  obtain ⟨top, rest, hstack, hdeclared⟩ := stack_declare hvalid b
  rw [Scopes.Named, hstack] at h
  obtain ⟨htop, hrest⟩ := List.forall_mem_cons.mp h
  rw [Scopes.Named, hdeclared]
  refine List.forall_mem_cons.mpr ⟨fun name x hx hne => ?_, hrest⟩
  rw [Dict.get?_set] at hx
  split at hx
  · next hname =>
    rw [← Option.some.inj hx, hb (hname ▸ hne), hname]
  · exact htop name x hx hne

theorem lookup {name : String} {b : Binding} (hb : s.lookup name = some b) (hname : name ≠ "") :
    b.key.name = name := by
  rw [lookup_eq hvalid] at hb
  obtain ⟨frame, hframe, hb⟩ := List.exists_of_findSome?_eq_some hb
  exact h frame hframe name b hb hname

end Scopes.Named

namespace Walker

theorem named_moved {w : Walker} (hvalid : w.scopes.Valid) (hnamed : w.scopes.Named)
    (a : Action) : (a.moved w).scopes.Named := by
  obtain ⟨-, hmoved⟩ | ⟨-, -, hmoved⟩ | ⟨c, ident, owner, kind, type, rfl, hmoved⟩ |
    ⟨-, -, hmoved⟩ := scopes_moved a w
  · exact hmoved ▸ hnamed.push hvalid
  · exact hmoved ▸ hnamed.pop hvalid
  · rw [hmoved]
    exact hnamed.declare hvalid c.name_key
  · exact hmoved ▸ hnamed

theorem named_after {w : Walker} (hvalid : w.scopes.Valid) (hnamed : w.scopes.Named)
    (steps : List Action) : (w.after steps).scopes.Named := by
  induction steps generalizing w with
  | nil => exact hnamed
  | cons a rest ih => exact ih (moved_valid hvalid a) (named_moved hvalid hnamed a)

/-- Whatever tier knows a name, the key that it resolves to ends with the name. -/
theorem name_resolve {w : Walker} (hvalid : w.scopes.Valid) (hnamed : w.scopes.Named) (t : Symbols)
    (c : Context) {name : String} (hname : name ≠ "") : (w.resolve t c name).name = name := by
  unfold resolve
  split
  · next hlookup => exact hnamed.lookup hvalid hlookup hname
  · split
    · exact c.name_key hname
    · split
      · rfl
      · exact Key.name_global hname

end Walker

/-! ## What the steps of a file write -/

/-- The definition lies in the source; if it is not a method, its name stands at its
identifier. -/
structure Definition.Accurate (src : Octets) (d : Definition) : Prop where
  span : src.Spans d.start d.stop
  ident : src.Spans d.identStart d.identStop
  name : d.kind ≠ .method → src.text d.identStart (d.identStop + 1) = d.name

/-- The step is about the selector of a method or of a message. -/
def Action.AtSelector : Action → Prop
  | .define _ _ kind _ _ _ => kind = .method
  | .implement .. | .send .. => True
  | _ => False

/-- The reference lies in the source; if it was not written at a selector, the last
segment of its key stands there. -/
structure Reference.Accurate (src : Octets) (a : Action) (r : Reference) : Prop where
  span : src.Spans r.start r.stop
  name : ¬ a.AtSelector → src.text r.start (r.stop + 1) = r.key.name

def Emission.Accurate (src : Octets) (a : Action) : Emission → Prop
  | .definition d => d.Accurate src
  | .reference r => r.Accurate src a
  | .skipped .. => True

namespace Emission

variable {a : Action} {file : String} {ident owner : Excerpt} {key : Key}

theorem accurate_define {kind : Kind} {name : String} {modifiers : List String}
    (hident : ident.Within src) (howner : owner.Within src)
    (hname : kind ≠ .method → ident.Cut src ∧ name = ident.text)
    (hkey : ¬ a.AtSelector → ident.Cut src ∧ key.name = ident.text) :
    ∀ e ∈ define file ident owner kind key name modifiers, e.Accurate src a := by
  refine List.forall_mem_cons.mpr ⟨⟨howner, hident, fun hkind => ?_⟩,
    List.forall_mem_cons.mpr ⟨⟨hident, fun hselector => ?_⟩, fun _ => nofun⟩⟩
  · obtain ⟨hcut, htext⟩ := hname hkind
    exact hcut.text.symm.trans htext.symm
  · obtain ⟨hcut, htext⟩ := hkey hselector
    exact hcut.text.symm.trans htext.symm

theorem accurate_refer (hcut : ident.Cut src) (hkey : key.name = ident.text) :
    (refer file ident key).Accurate src a :=
  ⟨hcut.within, fun _ => hcut.text.symm.trans hkey.symm⟩

theorem accurate_refer_selector (hwithin : ident.Within src) (ha : a.AtSelector) :
    (refer file ident key).Accurate src a := ⟨hwithin, fun hnot => absurd ha hnot⟩

end Emission

theorem Act.accurate_emissions {a : Act} (hvalid : a.walker.scopes.Valid)
    (hnamed : a.walker.scopes.Named) (ha : a.action.Faithful (.cut src)) (t : Symbols) :
    ∀ e ∈ a.emissions t, e.Accurate src a.action := by
  obtain ⟨file, w, action⟩ := a
  unfold emissions perform
  cases action with
  | define ident owner kind key name modifiers =>
      obtain ⟨hident, howner, ⟨hmethod, -⟩ | ⟨hcut, hname, hkey⟩⟩ := ha
      · exact Emission.accurate_define hident howner (absurd hmethod) (absurd hmethod)
      · exact Emission.accurate_define hident howner (fun _ => ⟨hcut, hname⟩) fun _ =>
          ⟨hcut, hkey (Excerpt.Cut.ne_empty hcut)⟩
  | declareLocal c ident owner kind type =>
      obtain ⟨hident, howner⟩ := ha
      exact Emission.accurate_define (Excerpt.Cut.within hident) howner (fun _ => ⟨hident, rfl⟩)
        fun _ => ⟨hident, c.name_key (Excerpt.Cut.ne_empty hident)⟩
  | implement anchor owner key name =>
      obtain ⟨hanchor, howner, -⟩ := ha
      dsimp only
      split
      · exact List.forall_mem_singleton.mpr (Emission.accurate_refer_selector hanchor trivial)
      · exact Emission.accurate_define hanchor howner (fun hkind => absurd rfl hkind)
          fun hnot => absurd trivial hnot
  | refer occurrence key =>
      exact List.forall_mem_singleton.mpr
        (Emission.accurate_refer ha.1 (ha.2 (Excerpt.Cut.ne_empty ha.1)))
  | read c occurrence =>
      exact List.forall_mem_singleton.mpr
        (Emission.accurate_refer ha
          (Walker.name_resolve hvalid hnamed t c (Excerpt.Cut.ne_empty ha)))
  | access c receiver member =>
      refine List.forall_mem_map.mpr fun owner _ => Emission.accurate_refer ha rfl
  | send c receivers anchor selector =>
      refine List.forall_mem_map.mpr fun owner _ => ?_
      exact Emission.accurate_refer_selector ha trivial
  | skip => exact List.forall_mem_singleton.mpr trivial
  | _ => exact fun _ => nofun

namespace Session

variable {s : Session}

theorem faithful_of_mem_acts {std : Standard} {file : String} {tree : Node}
    (htree : s.tree? file = some tree) (hfaithful : tree.Faithful std) {a : Act}
    (ha : a ∈ s.acts file) : a.action.Faithful std := by
  obtain ⟨tree', before, after, htree', hsteps, -, -⟩ := exists_of_mem_acts ha
  obtain rfl : tree = tree' := Option.some.inj (htree.symm.trans htree')
  exact hfaithful {} _ (hsteps ▸ List.mem_append_right _ List.mem_cons_self)

theorem named_of_mem_acts {file : String} {a : Act} (ha : a ∈ s.acts file) :
    a.walker.scopes.Valid ∧ a.walker.scopes.Named := by
  obtain ⟨-, before, -, -, -, -, hwalker⟩ := exists_of_mem_acts ha
  have hinitial : Scopes.initial.Named := fun frame hframe name b hb => by
    rw [List.mem_singleton.mp hframe] at hb
    cases hb
  rw [hwalker]
  exact ⟨Walker.after_valid Scopes.initial_valid before,
    Walker.named_after Scopes.initial_valid hinitial before⟩

/-- The acts of a file whose tree is faithful write what stands in its source. -/
theorem accurate_of_mem_acts {file : String} {tree : Node} (htree : s.tree? file = some tree)
    (hfaithful : tree.Faithful (.cut src)) {a : Act} (ha : a ∈ s.acts file) (t : Symbols) :
    ∀ e ∈ a.emissions t, e.Accurate src a.action := by
  obtain ⟨hvalid, hnamed⟩ := named_of_mem_acts ha
  exact Act.accurate_emissions hvalid hnamed (faithful_of_mem_acts htree hfaithful ha) t

/-- Where the tree of a file is placed in its source, the file parses, and all that its
walk writes lies in the source and has the name that stands there, selectors apart;
and so has all that a run stores of the file. -/
theorem records_name_their_bytes {file : String} {bytes : Octets} {root : Cst}
    (hread : s.readFile file = .ok bytes)
    (hparse : (s.sources.parse bytes file).2 = root.parse bytes)
    (hplaced : root.Placed 0 bytes.size) :
    (∃ issues, root.parse bytes = .ok ⟨root.tree bytes, issues⟩) ∧
    (∀ a ∈ s.acts file, ∀ t, ∀ e ∈ a.emissions t, e.Accurate bytes a.action) ∧
    ∀ paths run report, s.process paths {} = .done run report →
      (∀ d ∈ run.store.definitions, d.file = file → d.Accurate bytes) ∧
      ∀ r ∈ run.store.references, r.file = file →
        ∃ a ∈ s.acts file, (∃ t, .reference r ∈ a.emissions t) ∧ r.Accurate bytes a.action := by
  obtain ⟨issues, hissues⟩ := Cst.parse_of_placed hplaced
  have htree := tree?_of_parse hread (hparse.trans hissues)
  have hacts : ∀ a ∈ s.acts file, ∀ t, ∀ e ∈ a.emissions t, e.Accurate bytes a.action :=
    fun a ha t => accurate_of_mem_acts htree (Cst.faithful_tree hplaced) ha t
  refine ⟨⟨issues, hissues⟩, hacts, fun paths run report hdone => ?_⟩
  obtain ⟨steps, htour, hfinished⟩ := process_done hdone
  constructor
  · intro d hd hfile
    have hwritten := hfinished.written.mem_iff.mp (List.mem_append_left _ hd)
    obtain ⟨-, a, ha, t, he⟩ :=
      htour.writtenFor (Emission.mem_filterMap_definition?.mp hwritten) rfl
    exact hacts a (hfile ▸ ha) t _ he
  · intro r hr hfile
    rw [hfinished.references] at hr
    have hwritten := (Reference.mem_foldl_addTo hr).resolve_right List.not_mem_nil
    obtain ⟨-, a, ha, t, he⟩ := htour.writtenFor (Emission.mem_filterMap_reference?.mp hwritten) rfl
    exact ⟨a, hfile ▸ ha, ⟨t, he⟩, hacts a (hfile ▸ ha) t _ he⟩

end Session

/-! Nodes to write trees down with. -/

namespace Cst

/-- A word of the source, without children. -/
def leaf (type : String) (start stop : Int) (named : Bool) : Cst :=
  .node { type, start, stop, named } []

/-- A node of the source. -/
def branch (type : String) (start stop : Int) (children : List Cst) : Cst :=
  .node { type, start, stop, named := true } children

/-- A node that fills a field. -/
def inField (field : String) : Cst → Cst
  | .node head children => .node { head with field } children

end Cst

namespace Session

open Cst (leaf branch)

/-! A method whose selector is put together from two nodes, and a message:

    @implementation A -f:(id)p{[p g];} @end
-/

def messageBytes : Octets := Text.Utf8.encode "@implementation A -f:(id)p{[p g];} @end"

def messageTree : Cst :=
  branch "translation_unit" 0 39
    [branch "class_implementation" 0 39
      [leaf "@implementation" 0 15 false, leaf "identifier" 16 17 true,
        branch "method_definition" 18 34
          [leaf "-" 18 19 false, leaf "identifier" 19 20 true,
            branch "method_parameter" 20 26
              [leaf ":" 20 21 false,
                branch "method_type" 21 25
                  [branch "type_name" 22 24 [leaf "type_identifier" 22 24 true]],
                leaf "identifier" 25 26 true],
            branch "compound_statement" 26 34
              [branch "expression_statement" 27 33
                [branch "message_expression" 27 32
                  [leaf "[" 27 28 false, leaf "identifier" 28 29 true,
                    leaf "identifier" 30 31 true, leaf "]" 31 32 false]]]],
        leaf "@end" 35 39 false]]

def messageFile : Session where
  root := ⟨.root, ["unit"]⟩
  twoPass := true
  sizeLimit := 1000
  sources :=
    { size := fun _ => .ok 39
      read := fun _ => .ok messageBytes
      parse := fun bytes _ => ([], messageTree.parse bytes) }

theorem records_name_their_bytes_message :
    messageTree.Placed 0 messageBytes.size ∧
    ∃ run report, messageFile.process ["a.m"] {} = .done run report ∧
      run.store.definitions.map (fun d => (d.name, d.identStart, d.identStop, d.start, d.stop)) =
        [("f:", 19, 19, 18, 33), ("p", 25, 25, 19, 25)] ∧
      (∀ d ∈ run.store.definitions, d.file = "a.m" → d.Accurate messageBytes) ∧
      ∀ r ∈ run.store.references, r.file = "a.m" →
        ∃ a ∈ messageFile.acts "a.m", (∃ t, .reference r ∈ a.emissions t) ∧
          r.Accurate messageBytes a.action := by
  have hplaced : messageTree.Placed 0 messageBytes.size := by decide +kernel
  have hread : ∀ file, messageFile.readFile file = .ok messageBytes := fun _ => rfl
  have hparse : ∀ file, (messageFile.sources.parse messageBytes file).2 =
      messageTree.parse messageBytes := fun _ => rfl
  obtain ⟨⟨issues, hissues⟩, -, hruns⟩ :=
    records_name_their_bytes (hread "a.m") (hparse "a.m") hplaced
  obtain ⟨run, report, hdone⟩ := (messageFile.process_done_iff ["a.m"]).mpr fun file _ =>
    readable_of_tree? (tree?_of_parse (hread file) ((hparse file).trans hissues))
  have hstored : (messageFile.process ["a.m"] {}).run.store.definitions.map
      (fun d => (d.name, d.identStart, d.identStop, d.start, d.stop)) =
        [("f:", 19, 19, 18, 33), ("p", 25, 25, 19, 25)] := by decide +kernel
  rw [hdone] at hstored
  exact ⟨hplaced, run, report, hdone, hstored, hruns _ run report hdone⟩

end Session

end SymbolGraph
