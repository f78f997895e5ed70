import SymbolGraph.Proofs.ByteSpan
import SymbolGraph.Proofs.Occurrence

/-!
# `Proofs.Nameless` — where a record has no name

A node that the grammar wanted and the source does not have covers no bytes, but it is
read like any other node: where it stands for a name, the name is empty.  A declaration
is left out only if there is no such node at all, so definitions without a name and
references without a path do occur, and a parameter without a name falls together with
its function, since a key leaves empty segments out.

Nothing else leads there.  Whatever the tree, every name in a step of its walk is the
text of one of its nodes (`Cst.faithful_tree_nodes`), selectors apart, which end with a
colon; and a key whose name is not empty has a path, and another one than the function
or method around it.
-/

namespace SymbolGraph

open SymbolGraph.Action

/-! ## Names are nodes -/

namespace Cst

mutual

/-- The nodes of a tree, each without its children. -/
def heads : Cst → List Head
  | node head children => head :: headsOfAll children

def headsOfAll : List Cst → List Head
  | [] => []
  | c :: rest => heads c ++ headsOfAll rest

end

/-- A node of the tree has this span and covers no byte of the source. -/
def EmptyAt (src : Octets) (root : Cst) (start stop : Int) : Prop :=
  ∃ h ∈ root.heads,
    src.slice h.start h.stop = [] ∧ start = h.start ∧ stop = max h.start (h.stop - 1)

end Cst

/-- Names are those of nodes; nothing is asked of spans. -/
def Standard.nodes (src : Octets) (heads : List Head) : Standard where
  Name e := ∃ h ∈ heads, e = h.excerpt src
  Span _ := True
  span_of_name _ := trivial

namespace Cst

variable {src : Octets} {heads : List Head}

mutual

theorem sound_reading_nodes : ∀ {c : Cst}, c.heads ⊆ heads →
    (c.reading src).Sound (.nodes src heads)
  | node head children, h => by
      rw [Cst.heads, List.cons_subset] at h
      rw [reading]
      exact Reading.sound_make ⟨head, h.1, rfl⟩ (sound_readings_nodes h.2)
        ⟨fun _ _ => trivial, fun _ _ => trivial, fun _ _ => trivial⟩

theorem sound_readings_nodes : ∀ {cs : List Cst}, headsOfAll cs ⊆ heads →
    ∀ r ∈ readings src cs, r.Sound (.nodes src heads)
  | [], _ => by
      rw [readings]
      exact fun _ => nofun
  | c :: rest, h => by
      rw [headsOfAll, List.append_subset] at h
      rw [readings]
      exact List.forall_mem_cons.mpr ⟨sound_reading_nodes h.1, sound_readings_nodes h.2⟩

end

theorem faithful_tree_nodes (src : Octets) (root : Cst) :
    (root.tree src).Faithful (.nodes src root.heads) := by
  obtain ⟨head, children⟩ := root
  exact Node.faithful_unit (Reading.faithful_of_nodes
    (sound_readings_nodes (List.subset_cons_self head _)))

/-- Only a node that covers no bytes has no text. -/
theorem emptyAt_of_name {root : Cst} {e : Excerpt} (he : (Standard.nodes src root.heads).Name e)
    (htext : e.text = "") : root.EmptyAt src e.start e.stop := by
  obtain ⟨h, hmem, rfl⟩ := he
  refine ⟨h, hmem, ?_, rfl, rfl⟩
  by_contra hne
  exact Text.Utf8.decode_ne_empty hne htext

end Cst

/-! ## Keys with a name have a path -/

namespace Key

variable {k : Key}

theorem length_le_path (k : Key) : ("/".intercalate k.segments).length ≤ k.path.length := by
  unfold path
  dsimp only
  split
  · simp only [String.length_append]
    omega
  · exact Nat.le_refl _

theorem path_ne_empty (h : k.name ≠ "") : k.path ≠ "" := by
  intro hpath
  have hle := k.length_le_path
  rw [hpath] at hle
  obtain ⟨segments, block⟩ := k
  rcases List.eq_nil_or_concat segments with rfl | ⟨front, last, rfl⟩
  · exact h rfl
  · have hlast : last ≠ "" := by simpa [name] using h
    by_cases hfront : front = []
    · subst hfront
      simp at hle
      exact hlast hle
    · have hpositive : 0 < last.length := Nat.pos_of_ne_zero (mt String.length_eq_zero_iff.mp hlast)
      rw [List.concat_eq_append, String.intercalate_append_of_ne_nil hfront (List.cons_ne_nil _ _),
        String.intercalate_singleton, String.length_append] at hle
      exact absurd hle (by simp only [String.length_empty]; omega)

/-- What is below a method has another path than the method, whatever its name. -/
theorem path_child_member_ne (owner name x : String) :
    ((member owner name).child x).path ≠ (member owner name).path := by
  intro h
  have hlength : (owner ++ "/" ++ name ++ "/" ++ x).length = (owner ++ "/" ++ name).length :=
    congrArg String.length h
  simp only [String.length_append, show "/".length = 1 from rfl] at hlength
  omega

end Key

namespace Context

variable {c : Context} {m x : String}

/-- The path of a name in a routine is longer than the names around it and a slash, if
neither the name nor that of the routine is empty. -/
theorem length_lt_path_key (hm : c.methodName = some m) (hne : m ≠ "") (hx : x ≠ "")
    (block : Int) :
    (c.className.getD "").length + 1 + m.length < ((c.key x).inBlock block).path.length := by
  have hpositive : 0 < x.length := Nat.pos_of_ne_zero (mt String.length_eq_zero_iff.mp hx)
  refine Nat.lt_of_lt_of_le ?_ (Key.length_le_path _)
  show _ < ("/".intercalate (c.key x).segments).length
  have hpair : (m ++ "/" ++ x).length = m.length + 1 + x.length := by
    simp only [String.length_append]
    rfl
  have hinner : (c.key x).segments = (c.className.filter (· ≠ "")).toList ++ [m, x] := by
    rw [segments_key, hm, if_neg hx]
    rcases c.className with _ | className
    · simp [Option.filter, hne]
    · by_cases hclass : className = ""
      · simp [Option.filter, hne, hclass]
      · simp [Option.filter, hne, hclass]
  rw [hinner]
  rcases c.className with _ | className
  · exact Nat.lt_of_lt_of_eq (by simp; omega) hpair.symm
  · by_cases hclass : className = ""
    · subst hclass
      exact Nat.lt_of_lt_of_eq (by simp; omega) hpair.symm
    · have htriple : (className ++ "/" ++ m ++ "/" ++ x).length =
          className.length + 1 + m.length + 1 + x.length := by
        simp only [String.length_append]
        rfl
      rw [show (some className).filter (· ≠ "") = some className by simp [Option.filter, hclass]]
      exact Nat.lt_of_lt_of_eq (by simp; omega) htriple.symm

end Context

/-! ## What is written without a name -/

namespace Emission

/-- The definition has no name or no path; the reference has no path. -/
def Nameless : Emission → Prop
  | .definition d => d.name = "" ∨ d.key.path = ""
  | .reference r => r.key.path = ""
  | .skipped .. => False

instance : DecidablePred Nameless
  | .definition d => inferInstanceAs (Decidable (d.name = "" ∨ d.key.path = ""))
  | .reference r => inferInstanceAs (Decidable (r.key.path = ""))
  | .skipped .. => isFalse id

/-- Where the name of a record stands. -/
def span? : Emission → Option (Int × Int)
  | .definition d => some (d.identStart, d.identStop)
  | .reference r => some (r.start, r.stop)
  | .skipped .. => none

variable {file : String} {ident owner : Excerpt} {kind : Kind} {key : Key} {name : String}
  {modifiers : List String}

theorem nameless_define (hkey : ident.text ≠ "" → key.name = ident.text) :
    ∀ e ∈ define file ident owner kind key ident.text modifiers, e.Nameless →
      ident.text = "" ∧ e.span? = some (ident.start, ident.stop) := by
  have hpath : key.path = "" → ident.text = "" := by
    intro h
    by_contra hne
    exact Key.path_ne_empty (hkey hne ▸ hne) h
  refine List.forall_mem_cons.mpr ⟨fun h => ⟨?_, rfl⟩, List.forall_mem_singleton.mpr fun h =>
    ⟨hpath h, rfl⟩⟩
  exact h.elim id hpath

theorem not_nameless_define (hname : name ≠ "") (hkey : key.path ≠ "") :
    ∀ e ∈ define file ident owner kind key name modifiers, ¬ e.Nameless :=
  List.forall_mem_cons.mpr ⟨not_or.mpr ⟨hname, hkey⟩, List.forall_mem_singleton.mpr hkey⟩

theorem nameless_refer (hkey : ident.text ≠ "" → key.name = ident.text)
    (h : (refer file ident key).Nameless) : ident.text = "" := by
  by_contra hne
  exact Key.path_ne_empty (hkey hne ▸ hne) h

end Emission

/-- A faithful step writes a record without a name only where a name is empty. -/
theorem Act.exists_of_nameless {std : Standard} {a : Act} (hvalid : a.walker.scopes.Valid)
    (hnamed : a.walker.scopes.Named) (ha : a.action.Faithful std) (t : Symbols) :
    ∀ e ∈ a.emissions t, e.Nameless →
      ∃ x, std.Name x ∧ x.text = "" ∧ e.span? = some (x.start, x.stop) := by
  obtain ⟨file, w, action⟩ := a
  unfold emissions perform
  cases action with
  | define ident owner kind key name modifiers =>
      obtain ⟨-, -, ⟨-, hname, hkey⟩ | ⟨hident, rfl, hkey⟩⟩ := ha
      · exact fun e he h => absurd h (Emission.not_nameless_define hname hkey e he)
      · exact fun e he h => ⟨ident, hident, Emission.nameless_define hkey e he h⟩
  | declareLocal c ident owner kind type =>
      have hkey : ident.text ≠ "" → ((c.key ident.text).inBlock w.block).name = ident.text :=
        c.name_key
      exact fun e he h => ⟨ident, ha.1, Emission.nameless_define hkey e he h⟩
  | implement anchor owner key name =>
      obtain ⟨-, -, hname, hkey⟩ := ha
      dsimp only
      split
      · exact List.forall_mem_singleton.mpr fun h => absurd h hkey
      · exact fun e he h => absurd h (Emission.not_nameless_define hname hkey e he)
  | refer occurrence key =>
      exact List.forall_mem_singleton.mpr fun h =>
        ⟨occurrence, ha.1, Emission.nameless_refer ha.2 h, rfl⟩
  | read c occurrence =>
      exact List.forall_mem_singleton.mpr fun h =>
        ⟨occurrence, ha, Emission.nameless_refer (Walker.name_resolve hvalid hnamed t c) h, rfl⟩
  | access c receiver member =>
      exact List.forall_mem_map.mpr fun owner _ h => absurd h (Key.path_member_ne_empty _ _)
  | send c receivers anchor selector =>
      exact List.forall_mem_map.mpr fun owner _ h => absurd h (Key.path_member_ne_empty _ _)
  | skip => exact List.forall_mem_singleton.mpr False.elim
  | _ => exact fun _ => nofun

/-! ## Functions and methods -/

/-- A function or a method, as far as its parameters and its locals are concerned. -/
structure Routine where
  key : Key
  /-- The context of its body. -/
  inner : Context
  parameterKey : String → Key
  /-- The names of its parameters. -/
  parameters : List Excerpt

/-- The step declares a parameter or a local of the routine. -/
inductive Routine.Declares (r : Routine) : Action → Prop
  | parameter (ident owner : Excerpt) :
      r.Declares (defineName ident owner .parameter (r.parameterKey ident.text))
  | bound (ident owner : Excerpt) (kind : Kind) (type : Option String) :
      r.Declares (.declareLocal r.inner ident owner kind type)

/-- What such a step defines has the key of a parameter or of a local, and its name meets
the standard that the step is faithful to. -/
theorem Routine.Declares.exists_of_mem_emissions {r : Routine} {a : Act} {std : Standard}
    (h : r.Declares a.action) (ha : a.action.Faithful std) {t : Symbols} {d : Definition}
    (hd : .definition d ∈ a.emissions t) :
    ∃ x, std.Name x ∧ (d.key = r.parameterKey x.text ∨
      ∃ block, d.key = (r.inner.key x.text).inBlock block) ∧
      d.identStart = x.start ∧ d.identStop = x.stop := by
  obtain ⟨file, w, action⟩ := a
  have hdefine : ∀ {ident owner : Excerpt} {kind : Kind} {key : Key} {name : String}
      {modifiers : List String},
      .definition d ∈ Emission.define file ident owner kind key name modifiers →
      d.key = key ∧ d.identStart = ident.start ∧ d.identStop = ident.stop := by
    intro ident owner kind key name modifiers hmem
    rcases List.mem_cons.mp hmem with heq | hmem
    · rw [Emission.definition.inj heq]
      exact ⟨rfl, rfl, rfl⟩
    · cases List.mem_singleton.mp hmem
  dsimp only at h ha
  cases h with
  | parameter ident owner =>
      obtain ⟨-, -, ⟨hmethod, -⟩ | ⟨hident, -⟩⟩ := ha
      · cases hmethod
      · obtain ⟨hkey, hspan⟩ := hdefine hd
        exact ⟨ident, hident, Or.inl hkey, hspan⟩
  | bound ident owner kind type =>
      obtain ⟨hkey, hspan⟩ := hdefine hd
      exact ⟨ident, ha.1, Or.inr ⟨w.block, hkey⟩, hspan⟩

namespace Node

/-- A function that has a name, or a method in a class. -/
def routine? (c : Context) : Node → Option Routine
  | .functionDefinition _ _ (some ⟨_, some name, _, parameters⟩) _ =>
      let inner := { c with methodName := name.text }
      some ⟨.global name.text, inner, inner.key,
        (parameters.getD []).filterMap fun p => p.declarator.bind (·.name)⟩
  | .methodDefinition _ _ _ (some s) _ =>
      c.className.map fun className =>
        let key := Key.member className s.name
        ⟨key, { c with methodName := s.name }, key.child, s.keywords.filterMap (·.name)⟩
  | _ => none

variable {c : Context} {n : Node} {r : Routine}

theorem routine?_cases (h : n.routine? c = some r) :
    (∃ e specifiers d name nested parameters body,
      n = .functionDefinition e specifiers (some ⟨d, some name, nested, parameters⟩) body ∧
      r = ⟨.global name.text, { c with methodName := name.text },
        Context.key { c with methodName := name.text },
        (parameters.getD []).filterMap fun p => p.declarator.bind (·.name)⟩) ∨
    ∃ e isClassMethod returnType s body className,
      n = .methodDefinition e isClassMethod returnType (some s) body ∧
      c.className = some className ∧
      r = ⟨.member className s.name, { c with methodName := s.name },
        (Key.member className s.name).child, s.keywords.filterMap (·.name)⟩ := by
  unfold routine? at h
  split at h
  · exact Or.inl ⟨_, _, _, _, _, _, _, rfl, (Option.some.inj h).symm⟩
  · obtain ⟨className, hclass, rfl⟩ := Option.map_eq_some_iff.mp h
    exact Or.inr ⟨_, _, _, _, _, className, rfl, hclass, rfl⟩
  · cases h

/-- A parameter or local that has a name does not fall together with its routine. -/
theorem apart_of_routine? (h : n.routine? c = some r) {x : String} (hx : x ≠ "") :
    (r.parameterKey x).path ≠ r.key.path ∧
      ∀ block, ((r.inner.key x).inBlock block).path ≠ r.key.path := by
  obtain ⟨-, -, -, name, -, -, -, -, rfl⟩ | ⟨-, -, -, s, -, className, -, hclass, rfl⟩ :=
    routine?_cases h
  · have hlocal : ∀ block, ((Context.key { c with methodName := name.text } x).inBlock block).path ≠
        (Key.global name.text).path := by
      intro block hpath
      rw [Key.path_global] at hpath
      by_cases hname : name.text = ""
      · have hkey : ((Context.key { c with methodName := name.text } x).inBlock block).name = x :=
          Context.name_key _ hx
        exact Key.path_ne_empty (hkey.symm ▸ hx) (hpath.trans hname)
      · have hlength := Context.length_lt_path_key (c := { c with methodName := name.text }) rfl
          hname hx block
        rw [hpath] at hlength
        omega
    exact ⟨hlocal 0, hlocal⟩
  · refine ⟨Key.path_child_member_ne _ _ _, fun block hpath => ?_⟩
    have hlength := Context.length_lt_path_key (c := { c with methodName := s.name }) rfl
      s.name_ne_empty hx block
    have hmember : (Key.member className s.name).path.length =
        className.length + 1 + s.name.length := by
      simp only [Key.path_member, String.length_append]
      rfl
    rw [hpath, hmember, hclass, Option.getD_some] at hlength
    exact absurd hlength (Nat.lt_irrefl _)

end Node

theorem Parameter.exists_of_mem_names (c : Context) {e : Excerpt} :
    ∀ {parameters : List Parameter},
      e ∈ parameters.filterMap (fun p => p.declarator.bind (·.name)) →
      ∃ owner, defineName e owner .parameter (c.key e.text) ∈ Parameter.actionsOfAll c parameters
  | ⟨owner, specifiers, declarator⟩ :: rest, h => by
      rw [Parameter.actionsOfAll.eq_def]
      dsimp only
      rcases List.mem_filterMap.mp h with ⟨p, hp, he⟩
      rcases List.mem_cons.mp hp with rfl | hp
      · obtain ⟨⟨d, name, nested, parameters⟩, hdeclarator, hname⟩ := Option.bind_eq_some_iff.mp he
        obtain rfl : declarator = some ⟨d, name, nested, parameters⟩ := hdeclarator
        obtain rfl : name = some e := hname
        exact ⟨owner, by simp⟩
      · obtain ⟨owner, hmem⟩ := exists_of_mem_names c (List.mem_filterMap.mpr ⟨p, hp, he⟩)
        exact ⟨owner, List.mem_append_right _ hmem⟩

theorem KeywordDeclarator.exists_of_mem_names (c : Context) (method : Key) {e : Excerpt} :
    ∀ {keywords : List KeywordDeclarator}, e ∈ keywords.filterMap (·.name) →
      ∃ owner, defineName e owner .parameter (method.child e.text) ∈
        KeywordDeclarator.actionsOfAll c method keywords
  | ⟨owner, keyword, typeName, name⟩ :: rest, h => by
      rw [KeywordDeclarator.actionsOfAll.eq_def]
      dsimp only
      rcases List.mem_filterMap.mp h with ⟨k, hk, he⟩
      rcases List.mem_cons.mp hk with rfl | hk
      · obtain rfl : name = some e := he
        exact ⟨owner, by simp⟩
      · obtain ⟨owner, hmem⟩ := exists_of_mem_names c method (List.mem_filterMap.mpr ⟨k, hk, he⟩)
        exact ⟨owner, List.mem_append_right _ hmem⟩

/-- Each parameter that has a name node is defined, under the key of a parameter. -/
theorem Node.exists_of_mem_parameters {c : Context} {n : Node} {r : Routine}
    (h : n.routine? c = some r) {e : Excerpt} (he : e ∈ r.parameters) :
    ∃ owner, defineName e owner .parameter (r.parameterKey e.text) ∈ n.actions c := by
  obtain ⟨-, -, -, name, -, parameters, -, rfl, rfl⟩ |
    ⟨-, -, -, s, -, className, rfl, hclass, rfl⟩ := routine?_cases h
  · cases parameters with
    | none => cases he
    | some parameters =>
        obtain ⟨owner, hmem⟩ :=
          Parameter.exists_of_mem_names { c with methodName := name.text } he
        rw [Option.getD_some] at hmem
        refine ⟨owner, ?_⟩
        rw [Node.actions, Parameter.actionsOfOption]
        simp [hmem]
  · obtain ⟨owner, hmem⟩ := KeywordDeclarator.exists_of_mem_names { c with methodName := s.name }
      (Key.member className s.name) he
    refine ⟨owner, ?_⟩
    rw [actions_methodDefinition hclass]
    simp [hmem]

/-! ## Files -/

namespace Session

variable {s : Session}

theorem tree_of_root {file : String} {bytes : Octets} {root : Cst} {tree : Node}
    (hread : s.readFile file = .ok bytes)
    (hparse : (s.sources.parse bytes file).2 = root.parse bytes)
    (htree : s.tree? file = some tree) : tree = root.tree bytes := by
  cases hissues : root.issues bytes with
  | error e =>
      simp [tree?, parsed?, content, hread, hparse, Cst.parse, hissues, Except.map] at htree
  | ok issues =>
      have hok : root.parse bytes = .ok ⟨root.tree bytes, issues⟩ := by
        rw [Cst.parse, hissues]
        rfl
      exact Option.some.inj (htree.symm.trans (tree?_of_parse hread (hparse.trans hok)))

/-- Whatever the tree of a file, its walk writes a definition without a name or path, or
a reference without a path, only where a node of the tree covers no bytes; and so it is
with a parameter or local that falls together with its function or method. -/
theorem nameless_only_at_empty_nodes {file : String} {bytes : Octets} {root : Cst}
    (hread : s.readFile file = .ok bytes)
    (hparse : (s.sources.parse bytes file).2 = root.parse bytes) :
    (∀ a ∈ s.acts file, ∀ t, ∀ e ∈ a.emissions t, e.Nameless →
      ∃ start stop, e.span? = some (start, stop) ∧ root.EmptyAt bytes start stop) ∧
    ∀ c n r, Node.Holds {} (root.tree bytes) c n → n.routine? c = some r →
      (∀ e ∈ r.parameters, ∃ owner,
        defineName e owner .parameter (r.parameterKey e.text) ∈ (root.tree bytes).actions {}) ∧
      ∀ a ∈ s.acts file, r.Declares a.action → ∀ t d, .definition d ∈ a.emissions t →
        d.key.path = r.key.path → root.EmptyAt bytes d.identStart d.identStop := by
  have hfaithful : ∀ a ∈ s.acts file, a.action.Faithful (.nodes bytes root.heads) := by
    intro a ha
    obtain ⟨tree, htree, haction⟩ := action_of_mem_acts ha
    obtain rfl := tree_of_root hread hparse htree
    exact Cst.faithful_tree_nodes bytes root {} _ haction
  constructor
  · intro a ha t e he hnameless
    obtain ⟨hvalid, hnamed⟩ := named_of_mem_acts ha
    obtain ⟨x, hx, htext, hspan⟩ :=
      Act.exists_of_nameless hvalid hnamed (hfaithful a ha) t e he hnameless
    exact ⟨x.start, x.stop, hspan, Cst.emptyAt_of_name hx htext⟩
  · intro c n r hholds hr
    refine ⟨fun e he => ?_, fun a ha hdeclares t d hd hpath => ?_⟩
    · obtain ⟨owner, hmem⟩ := Node.exists_of_mem_parameters hr he
      exact ⟨owner, hholds.subset hmem⟩
    · obtain ⟨x, hx, hname, hstart, hstop⟩ := hdeclares.exists_of_mem_emissions (hfaithful a ha) hd
      rw [hstart, hstop]
      refine Cst.emptyAt_of_name hx ?_
      by_contra hne
      obtain ⟨hparameter, hlocal⟩ := Node.apart_of_routine? hr hne
      rcases hname with hkey | ⟨block, hkey⟩
      · exact hparameter (hkey ▸ hpath)
      · exact hlocal block (hkey ▸ hpath)

open Cst (leaf branch inField)

/-! A class and a parameter whose names are missing:

    @interface @end int f(int){}
-/

def missingBytes : Octets := Text.Utf8.encode "@interface @end int f(int){}"

/-- A name that the source does not have. -/
def missingName (offset : Int) : Cst :=
  .node { type := "identifier", start := offset, stop := offset, named := true, missing := true } []

def missingTree : Cst :=
  branch "translation_unit" 0 28
    [branch "class_interface" 0 15
      [leaf "@interface" 0 10 false, missingName 10, leaf "@end" 11 15 false],
      branch "function_definition" 16 28
        [inField "type" (leaf "primitive_type" 16 19 true),
          inField "declarator" (branch "function_declarator" 20 26
            [inField "declarator" (leaf "identifier" 20 21 true),
              inField "parameters" (branch "parameter_list" 21 26
                [leaf "(" 21 22 false,
                  branch "parameter_declaration" 22 25
                    [inField "type" (leaf "primitive_type" 22 25 true),
                      inField "declarator" (missingName 25)],
                  leaf ")" 25 26 false])]),
          inField "body" (branch "compound_statement" 26 28
            [leaf "\x7b" 26 27 false, leaf "\x7d" 27 28 false])]]

def missingFile : Session where
  root := ⟨.root, ["unit"]⟩
  twoPass := false
  sizeLimit := 1000
  sources :=
    { size := fun _ => .ok 28
      read := fun _ => .ok missingBytes
      parse := fun bytes _ => ([], missingTree.parse bytes) }

/-- The class is stored without a name and without a path, and the parameter takes the
place of the function. -/
theorem missing_names_are_defined :
    (missingFile.process ["a.m"] {}).run.store.definitions.map
        (fun d => (d.kind, d.name, d.key.path)) =
      [(.classType, "", ""), (.parameter, "", "f")] ∧
    ∃ r ∈ (missingFile.process ["a.m"] {}).run.store.references, r.key.path = "" := by
  decide +kernel

theorem nameless_only_at_empty_nodes_missing :
    missingTree.EmptyAt missingBytes 10 10 ∧ missingTree.EmptyAt missingBytes 25 25 ∧
    ∃ c n r, Node.Holds {} (missingTree.tree missingBytes) c n ∧ n.routine? c = some r ∧
      r.key.path = "f" ∧ r.parameters.map (·.text) = [""] ∧
      ∀ a ∈ missingFile.acts "a.m", r.Declares a.action → ∀ t d, .definition d ∈ a.emissions t →
        d.key.path = r.key.path → missingTree.EmptyAt missingBytes d.identStart d.identStop := by
  have hread : missingFile.readFile "a.m" = .ok missingBytes := rfl
  have hparse : (missingFile.sources.parse missingBytes "a.m").2 = missingTree.parse missingBytes :=
    rfl
  obtain ⟨hnameless, hroutines⟩ := nameless_only_at_empty_nodes hread hparse
  have hempty : ∀ start stop, (∃ a ∈ missingFile.acts "a.m", ∃ e ∈ a.emissions {},
      e.Nameless ∧ e.span? = some (start, stop)) → missingTree.EmptyAt missingBytes start stop := by
    rintro start stop ⟨a, ha, e, he, hname, hspan⟩
    obtain ⟨start', stop', hspan', hemptyAt⟩ := hnameless a ha {} e he hname
    obtain ⟨rfl, rfl⟩ := Prod.mk.inj (Option.some.inj (hspan.symm.trans hspan'))
    exact hemptyAt
  have hroutine : ((((missingTree.tree missingBytes).children {})[1]?.bind fun p =>
      p.2.routine? p.1).map fun r => (r.key.path, r.parameters.map (·.text))) =
        some ("f", [""]) := by decide +kernel
  obtain ⟨r, hr, hkey⟩ := Option.map_eq_some_iff.mp hroutine
  obtain ⟨⟨c, n⟩, hchild, hr⟩ := Option.bind_eq_some_iff.mp hr
  have hholds := Node.Holds.inside (List.mem_of_getElem? hchild) (.here c n)
  obtain ⟨hpath, hparameters⟩ := Prod.mk.inj hkey
  exact ⟨hempty 10 10 (by decide +kernel), hempty 25 25 (by decide +kernel), c, n, r, hholds, hr,
    hpath, hparameters, (hroutines c n r hholds hr).2⟩

end Session

end SymbolGraph
