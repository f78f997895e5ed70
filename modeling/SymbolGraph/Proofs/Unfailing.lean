import SymbolGraph.Proofs.Checked

/-!
# `Proofs.Unfailing` — no reading of a tree breaks off

The scans of `Proofs.Checked` are put together to a reading of the whole tree.  Two are left:

    MethodScan      the selector of a method, from its first byte to its last
    message         the selector of a message, from its first keyword to its last

A method is read by a machine that notes the two bytes on the way, each at a different place,
and uses both at the end if there is a keyword.  That they are set by then is an invariant of
its steps (`Noted`): an open part has set the first byte, a closed one both.

`Checked.parse` is the reading of a tree with all its accesses.  On any tree it gives what
`Cst.parse` gives, and where the ranges of the nodes lie in the source it gives a tree and a
list of issues (`parse_total`).
-/

namespace SymbolGraph.Checked

open SymbolGraph.Reading

/-! ## Methods -/

/-- The state of reading a method's header; neither end of its selector is known at first. -/
structure MethodScan where
  returnType : Option TypeName := none
  body : Option Reading := none
  pending : Option Excerpt := none
  current : Option KeywordDeclarator := none
  keywords : List KeywordDeclarator := []
  first : Option Int := none
  last : Option Int := none

def keywordDeclarator (src : Octets) (pending : Option Excerpt) (r : Reading) :
    Except Fault KeywordDeclarator := do
  let types ← (r.children.filter (·.type == "method_type")).mapM typeName
  return { Reading.keywordDeclarator src pending r with typeName := types.getLast? }

namespace MethodScan

/-- One child of a method. -/
def step (src : Octets) (s : MethodScan) (r : Reading) : Except Fault MethodScan :=
  if r.type == "compound_statement" then .ok { s with body := some r }
  else if r.type == "method_type" && s.pending.isNone && s.current.isNone && s.keywords.isEmpty then
    do
      let type ← typeName r
      return { s with returnType := some type }
  else if r.type == "method_parameter" || r.type == "keyword_declarator" ||
      r.type == "keyword_selector" then do
    let k ← keywordDeclarator src s.pending r
    return { s with
      pending := none
      keywords := s.keywords ++ [k]
      first := s.first.or (some k.excerpt.start)
      last := some k.excerpt.stop }
  else if r.type == ":" then
    let start := (s.pending.map (·.start)).getD r.head.start
    .ok { s with
      pending := none
      current := some ⟨⟨"", start, r.head.start⟩, s.pending, none, none⟩
      first := s.first.or (some start) }
  else match s.current with
    | some k =>
        if r.type == "method_type" then do
          let type ← typeName r
          return { s with current := some { k with typeName := some type } }
        else if r.head.isName then
          let excerpt := ⟨src.text k.excerpt.start (r.excerpt.stop + 1), k.excerpt.start,
            r.excerpt.stop⟩
          .ok { s with
            current := none
            keywords := s.keywords ++ [{ k with excerpt, name := r.excerpt }]
            last := some r.excerpt.stop }
        else .ok s
    | none => .ok (if r.head.isName then { s with pending := some r.excerpt } else s)

def finish (s : MethodScan) : MethodScan :=
  match s.current with
  | none => s
  | some k =>
      { s with current := none, keywords := s.keywords ++ [k], last := some k.excerpt.stop }

/-- The selector that has been read: with a keyword, both its ends have to be set. -/
def selector? (src : Octets) (s : MethodScan) : Except Fault (Option Selector) :=
  if s.keywords.isEmpty then .ok (s.pending.map fun p => ⟨p, some p, []⟩)
  else do
    let start ← assigned s.first
    let stop ← assigned s.last
    return some ⟨⟨src.text start (stop + 1), start, stop⟩, none, s.keywords⟩

/-- The state without the difference between a last byte that is zero and none. -/
def state (s : MethodScan) : MethodState :=
  { returnType := s.returnType, body := s.body, pending := s.pending, current := s.current
    keywords := s.keywords, first := s.first, last := s.last.getD 0 }

/-- The bytes that the parts of the selector are to set are set. -/
structure Noted (s : MethodScan) : Prop where
  current : s.current ≠ none → s.first ≠ none
  keywords : s.keywords ≠ [] → s.first ≠ none ∧ s.last ≠ none

end MethodScan

/-- The return type, the selector and the body of a method. -/
def method (src : Octets) (children : List Reading) :
    Except Fault (Option TypeName × Option Selector × Option Reading) := do
  let s := (← children.foldlM (MethodScan.step src) {}).finish
  let selector ← s.selector? src
  return (s.returnType, selector, s.body)

def methodDeclaration (src : Octets) (excerpt : Excerpt) (children : List Reading) :
    Except Fault Node := do
  let (returnType, selector, _) ← method src children
  return .methodDeclaration excerpt (hasType "+" children) returnType selector

def methodDefinition (src : Octets) (excerpt : Excerpt) (children : List Reading) :
    Except Fault Node := do
  let (returnType, selector, body) ← method src children
  return .methodDefinition excerpt (hasType "+" children) returnType selector
    (body.bind (·.node))

section

variable (src : Octets)

@[simp] theorem keywordDeclarator_eq (pending : Option Excerpt) (r : Reading) :
    keywordDeclarator src pending r = .ok (Reading.keywordDeclarator src pending r) := by
  rw [keywordDeclarator, mapM_ok typeName_eq]
  simp only [bind, Except.bind, List.getLast?_map]
  rfl

namespace MethodScan

variable {s : MethodScan}

theorem step_ok (hs : s.Noted) (r : Reading) :
    ∃ t, s.step src r = .ok t ∧ t.state = s.state.step src r ∧ t.Noted := by
  have hfirst (start : Int) : s.first.or (some start) ≠ none := by simp
  simp only [step, MethodState.step, state, typeName_eq, keywordDeclarator_eq, bind, Except.bind,
    pure, Except.pure]
  -- One case for each kind of child, in the order of `step`.
  split
  · exact ⟨_, rfl, rfl, hs.current, hs.keywords⟩
  split
  · next hreturn => exact ⟨_, rfl, (if_pos hreturn).symm, hs.current, hs.keywords⟩
  split
  · exact ⟨_, rfl, rfl, fun _ => hfirst _, fun _ => ⟨hfirst _, Option.some_ne_none _⟩⟩
  split
  · exact ⟨_, rfl, rfl, fun _ => hfirst _, fun hmem => ⟨hfirst _, (hs.keywords hmem).2⟩⟩
  cases hopen : s.current with
  | some k =>
      have hopened : s.first ≠ none := hs.current (by simp [hopen])
      simp only
      split
      · exact ⟨_, rfl, rfl, fun _ => hopened, hs.keywords⟩
      split
      · exact ⟨_, rfl, rfl, fun hsome => absurd rfl hsome,
          fun _ => ⟨hopened, Option.some_ne_none _⟩⟩
      · exact ⟨s, rfl, by rw [hopen], hs⟩
  | none =>
      simp only
      split
      · exact ⟨_, rfl, rfl, fun hsome => absurd rfl hsome, hs.keywords⟩
      · exact ⟨s, rfl, by rw [hopen], hs⟩

theorem foldlM_step : ∀ (rs : List Reading) {s : MethodScan}, s.Noted →
    ∃ t, rs.foldlM (step src) s = .ok t ∧ t.state = rs.foldl (MethodState.step src) s.state ∧
      t.Noted
  | [], s, hs => ⟨s, rfl, rfl, hs⟩
  | r :: rs, s, hs => by
      obtain ⟨t, hstep, hstate, ht⟩ := step_ok src hs r
      obtain ⟨u, hrest, hu⟩ := foldlM_step rs ht
      rw [List.foldlM_cons, hstep, List.foldl_cons, ← hstate]
      exact ⟨u, hrest, hu⟩

theorem state_finish (s : MethodScan) : s.finish.state = s.state.finish := by
  unfold finish MethodState.finish
  cases hopen : s.current <;> simp [state, hopen]

theorem Noted.finish (hs : s.Noted) : s.finish.Noted := by
  unfold MethodScan.finish
  split
  · exact hs
  · next k hopen =>
    exact ⟨fun hsome => absurd rfl hsome,
      fun _ => ⟨hs.current (by simp [hopen]), Option.some_ne_none _⟩⟩

theorem Noted.selector?_eq (hs : s.Noted) : s.selector? src = .ok (s.state.selector? src) := by
  unfold MethodScan.selector? MethodState.selector?
  cases hkeywords : s.keywords with
  | nil => simp [state, hkeywords]
  | cons k rest =>
      have hset := hs.keywords (by simp [hkeywords])
      obtain ⟨start, hstart⟩ := Option.ne_none_iff_exists'.mp hset.1
      obtain ⟨stop, hstop⟩ := Option.ne_none_iff_exists'.mp hset.2
      simp [state, hkeywords, hstart, hstop, assigned, bind, Except.bind, pure, Except.pure]

end MethodScan

/-- A method is read to its end, and then both ends of its selector are known. -/
theorem method_eq (children : List Reading) :
    method src children = .ok ((methodState src children).returnType,
      (methodState src children).selector? src, (methodState src children).body) := by
  have hstart : ({} : MethodScan).Noted := ⟨fun hne => absurd rfl hne, fun hne => absurd rfl hne⟩
  obtain ⟨s, hscan, hstate, hs⟩ := MethodScan.foldlM_step src children hstart
  have hend : methodState src children = s.finish.state := by
    rw [MethodScan.state_finish, hstate]
    rfl
  rw [method, hscan, hend]
  simp only [bind, Except.bind, hs.finish.selector?_eq]
  rfl

end

/-! ## Messages -/

/-- The selector of a message, from its first keyword to its last. -/
def messageSelector? (src : Octets) (s : MessageState) :
    Except Fault (Option MessageSelector) :=
  if s.allKeywords.isEmpty then .ok (s.pending.map fun p => ⟨p, some p, []⟩)
  else do
    let start := (← first s.allKeywords).excerpt.start
    let stop := (← last s.allKeywords).excerpt.stop
    return some ⟨⟨src.text start (stop + 1), start, stop⟩, none, s.allKeywords⟩

def message (src : Octets) (excerpt : Excerpt) (children : List Reading) : Except Fault Node := do
  let s := MessageState.readAll src {} children
  let selector ← messageSelector? src s
  return .messageExpression excerpt s.receiver selector

theorem messageSelector?_eq (src : Octets) (s : MessageState) :
    messageSelector? src s = .ok (s.selector? src) := by
  unfold messageSelector? MessageState.selector?
  cases s.allKeywords with
  | nil => rfl
  | cons k rest =>
      simp only [List.isEmpty_cons, first, last_cons, List.getLastD_cons]
      rfl

theorem message_eq (src : Octets) (excerpt : Excerpt) (children : List Reading) :
    message src excerpt children = .ok (Reading.message src excerpt children) := by
  unfold message
  simp only [messageSelector?_eq]
  rfl

/-! ## Every node -/

/-- A node as a construct; the types that are not listed are read without any access. -/
def construct (src : Octets) (head : Head) (excerpt : Excerpt) (names : List Excerpt)
    (specifiers : List Specifier) (children : List Reading) : Except Fault Node :=
  match head.type with
  | "class_interface" | "category_interface" => interface excerpt children
  | "class_implementation" | "category_implementation" => implementation excerpt children
  | "protocol_declaration" => protocol excerpt names children
  | "method_declaration" => methodDeclaration src excerpt children
  | "method_definition" => methodDefinition src excerpt children
  | "property_declaration" => property excerpt children
  | "declaration" => (declaration excerpt children).map .declaration
  | "type_definition" => (typeDefinition excerpt children).map .declaration
  | "function_definition" => function excerpt children
  | "for_statement" | "for_in_statement" => loop excerpt children
  | "catch_clause" => catchClause excerpt children
  | "block_literal" | "block_expression" => block excerpt children
  | "message_expression" => message src excerpt children
  | "cast_expression" => cast excerpt children
  | _ => .ok (Reading.construct src head excerpt names specifiers children)

def nodeOf (src : Octets) (head : Head) (excerpt : Excerpt) (names : List Excerpt)
    (specifiers : List Specifier) (children : List Reading) : Except Fault (Option Node) :=
  if !head.named || skippedTypes.contains head.type then .ok none
  else (construct src head excerpt names specifiers children).map some

def make (src : Octets) (head : Head) (children : List Reading) : Except Fault Reading := do
  let excerpt := head.excerpt src
  let names := namesOf head excerpt children
  let specifiers ← specifiersOf head excerpt children
  let declarator ← declaratorOf head excerpt children
  let node ← nodeOf src head excerpt names specifiers children
  return { head, excerpt, names, specifiers, children, node, declarator }

mutual

/-- The reading of a tree in all roles, from the leaves up. -/
def reading (src : Octets) : Cst → Except Fault Reading
  | .node head children => do
      let rs ← readings src children
      make src head rs

def readings (src : Octets) : List Cst → Except Fault (List Reading)
  | [] => .ok []
  | c :: rest => do
      let r ← reading src c
      let rs ← readings src rest
      return r :: rs

end

/-- The tree of a source and its issues. -/
def parse (src : Octets) (root : Cst) : Except Fault Parsed := do
  let rs ← readings src root.children
  let issues ← (root.issues src).mapError Fault.issues
  return ⟨.unit (root.head.excerpt src) (nodes rs), issues⟩

section

variable (src : Octets)

theorem construct_eq (head : Head) (excerpt : Excerpt) (names : List Excerpt)
    (specifiers : List Specifier) (children : List Reading) :
    construct src head excerpt names specifiers children =
      .ok (Reading.construct src head excerpt names specifiers children) := by
  -- One case for each type that is listed, in the order of `construct`; the last one is any other.
  unfold construct
  split
  case h_19 => rfl
  all_goals
    rename_i htype
    rw [Reading.construct, htype]
  case h_1 | h_2 => exact interface_eq excerpt children
  case h_3 | h_4 => exact implementation_eq excerpt children
  case h_5 => exact protocol_eq excerpt names children
  case h_6 =>
    rw [methodDeclaration, method_eq]
    rfl
  case h_7 =>
    rw [methodDefinition, method_eq]
    rfl
  case h_8 => exact property_eq excerpt children
  case h_9 =>
    rw [declaration_eq]
    rfl
  case h_10 =>
    rw [typeDefinition_eq]
    rfl
  case h_11 => exact function_eq excerpt children
  case h_12 | h_13 => exact loop_eq excerpt children
  case h_14 => exact catchClause_eq excerpt children
  case h_15 | h_16 => exact block_eq excerpt children
  case h_17 => exact message_eq src excerpt children
  case h_18 => exact cast_eq excerpt children

theorem nodeOf_eq (head : Head) (excerpt : Excerpt) (names : List Excerpt)
    (specifiers : List Specifier) (children : List Reading) :
    nodeOf src head excerpt names specifiers children =
      .ok (Reading.nodeOf src head excerpt names specifiers children) := by
  unfold nodeOf Reading.nodeOf
  split
  · rfl
  · rw [construct_eq]
    rfl

theorem make_eq (head : Head) (children : List Reading) :
    make src head children = .ok (Reading.make src head children) := by
  unfold make
  simp only [specifiersOf_eq, declaratorOf_eq, nodeOf_eq, bind, Except.bind]
  rfl

mutual

theorem reading_eq : ∀ c : Cst, reading src c = .ok (c.reading src)
  | .node head children => by
      rw [reading, readings_eq children]
      exact make_eq src head _

theorem readings_eq : ∀ cs : List Cst, readings src cs = .ok (Cst.readings src cs)
  | [] => rfl
  | c :: rest => by
      rw [readings, reading_eq c, readings_eq rest]
      rfl

end

/-- With all its accesses the reading of a tree fails just where there are no issues. -/
theorem parse_eq (root : Cst) : parse src root = (root.parse src).mapError Fault.issues := by
  rw [parse, readings_eq, Cst.parse]
  cases root.issues src <;> rfl

end

/-- Whatever the types and the fields of the nodes, no element and no byte is used that is not
there: a tree is read unless one of its nodes is mute, and then the first line of that error is
what is missing.  Where the ranges of all nodes lie in the source, there are a tree and a list
of issues. -/
theorem parse_total (src : Octets) (root : Cst) :
    (∀ fault, parse src root = .error fault ↔
      fault = .issues .emptyError ∧ ∃ h ∈ root.preorder, h.Mute src) ∧
    (root.Inside src → ∃ issues, parse src root = .ok ⟨root.tree src, issues⟩ ∧
      root.parse src = .ok ⟨root.tree src, issues⟩) := by
  have hspoken (hmute : ∀ h ∈ root.preorder, ¬ h.Mute src) :
      ∃ issues, parse src root = .ok ⟨root.tree src, issues⟩ ∧
        root.parse src = .ok ⟨root.tree src, issues⟩ := by
    obtain ⟨issues, hissues⟩ : ∃ issues, root.issues src = .ok issues :=
      ⟨_, Cst.issues_of_not_mute hmute⟩
    have hparse : root.parse src = .ok ⟨root.tree src, issues⟩ := by
      rw [Cst.parse, hissues, Except.map]
    refine ⟨issues, ?_, hparse⟩
    rw [parse_eq, hparse]
    rfl
  refine ⟨fun fault => ?_, fun hinside => hspoken fun h hmem => (hinside h hmem).not_mute⟩
  by_cases hmute : ∃ h ∈ root.preorder, h.Mute src
  · have hparse : parse src root = .error (.issues .emptyError) := by
      rw [parse_eq, Cst.parse, Cst.issues_of_mute hmute]
      rfl
    simp [hparse, hmute, eq_comm]
  · obtain ⟨issues, hparse, -⟩ := hspoken fun h hmem hh => hmute ⟨h, hmem, hh⟩
    simp [hparse, hmute]

/-! Bytes that are no text, under nodes that lack what their types promise: parts of a selector
without names, protocols without a type, parentheses around nothing. -/

def tangledBytes : Octets := #[255, 58, 195, 10]

def tangledTree : Cst :=
  .node ⟨"translation_unit", 0, 4, true, false, none⟩
    [.node ⟨"method_definition", 0, 3, true, false, none⟩
      [.node ⟨":", 1, 2, false, false, none⟩ [],
        .node ⟨"method_type", 2, 2, true, true, none⟩
          [.node ⟨"protocol_qualifiers", 2, 2, true, false, none⟩ []],
        .node ⟨":", 2, 2, false, true, none⟩ []],
      .node ⟨"declaration", 0, 3, true, false, none⟩
        [.node ⟨"typedefed_specifier", 0, 0, true, false, some "type"⟩
            [.node ⟨"protocol_qualifiers", 0, 0, true, false, none⟩ []],
          .node ⟨"parenthesized_declarator", 1, 1, true, false, some "declarator"⟩ []],
      .node ⟨"class_interface", 1, 4, true, false, none⟩
        [.node ⟨"instance_variables", 1, 1, true, false, none⟩
          [.node ⟨"instance_variable", 1, 1, true, false, none⟩
            [.node ⟨"struct_declaration", 1, 1, true, false, none⟩ []]]],
      .node ⟨"ERROR", 2, 3, true, false, none⟩
        [.node ⟨"message_expression", 2, 3, true, false, none⟩ []]]

theorem parse_total_tangled :
    tangledTree.Inside tangledBytes ∧
      ∃ issues, parse tangledBytes tangledTree = .ok ⟨tangledTree.tree tangledBytes, issues⟩ ∧
        tangledTree.parse tangledBytes = .ok ⟨tangledTree.tree tangledBytes, issues⟩ := by
  have hinside : tangledTree.Inside tangledBytes := by decide
  exact ⟨hinside, (parse_total tangledBytes tangledTree).2 hinside⟩

end SymbolGraph.Checked
