import SymbolGraph.Proofs.Nameless

/-!
# `Proofs.DeclaratorChain` — from a declarator to the name it declares

Declarators of pointers, arrays, functions and blocks lie inside one another in any order,
with parentheses anywhere between them.  A walk never looks at that: it asks a declarator
for a name, whether parentheses stand around the name, and the parameters.  Here the way
from the outermost declarator to the name is laid out beforehand,

    Next c d                one link, and the node it leads to
    LeadsTo c links name    all links from `c` on, the outermost first, and the name

and the three answers are read off the links.  Each link only adds to what is read of the
next one (`Next.declarator_eq`): parentheses make the name nested, and a function declarator
gives its parameters where no other one has given any before, that is, where none is closer to
the name.

The way is the only one to a name: a node from which no links lead to a name declares none
(`exists_leadsTo`).
-/

namespace SymbolGraph.Cst

open Reading

/-! ## Links -/

/-- The nodes right inside a node, without punctuation. -/
def namedChildren (c : Cst) : List Cst := c.children.filter (·.head.named)

/-- The node in a field of a node, the first one if there are more. -/
def fieldChild? (field : String) (c : Cst) : Option Cst :=
  c.children.find? (·.head.field == some field)

/-- A link of a chain of declarators leads to the next one.  Parentheses lead to the first
named node inside them.  Any other link leads to its field; without one, to the first named
node inside it that is a name or some declarator. -/
inductive Next : Cst → Cst → Prop
  | inside {c d : Cst} : c.head.type = "parenthesized_declarator" →
      c.namedChildren.head? = some d → Next c d
  | field {c d : Cst} : ¬ c.head.isName → c.head.type ≠ "parenthesized_declarator" →
      c.fieldChild? "declarator" = some d → Next c d
  | first {c d : Cst} : ¬ c.head.isName → c.head.type ≠ "parenthesized_declarator" →
      c.fieldChild? "declarator" = none →
      c.namedChildren.find? (fun d => d.head.isName || d.head.isDeclarator) = some d → Next c d

/-- The links lead from the node to the name; the node is the first of them, or the name. -/
inductive LeadsTo : Cst → List Cst → Cst → Prop
  | name {c : Cst} : c.head.isName → LeadsTo c [] c
  | link {c d name : Cst} {links : List Cst} :
      Next c d → LeadsTo d links name → LeadsTo c (c :: links) name

theorem Next.mem_children {c d : Cst} (h : c.Next d) : d ∈ c.children := by
  cases h with
  | inside _ hd => exact List.mem_of_mem_filter (List.mem_of_mem_head? hd)
  | field _ _ hd => exact List.mem_of_find?_eq_some hd
  | first _ _ _ hd => exact List.mem_of_mem_filter (List.mem_of_find?_eq_some hd)

/-- The parameters that a function declarator lists. -/
def listedParameters (src : Octets) (c : Cst) : List Parameter :=
  match c.fieldChild? "parameters" with
  | none => []
  | some list =>
      (list.namedChildren.filter fun p => Text.has p.head.type "parameter").map fun p =>
        (p.reading src).parameter

/-- The parameters of a link, if it is a function declarator. -/
def parameters? (src : Octets) (c : Cst) : Option (List Parameter) :=
  if c.head.type = "function_declarator" then some (c.listedParameters src) else none

/-! ## One link -/

section

variable {src : Octets} {c d name : Cst} {links : List Cst}

theorem declarator_reading (c : Cst) : (c.reading src).declarator =
    declaratorOf c.head (c.head.excerpt src) (c.reading src).children := by
  cases c
  rfl

theorem named_children (c : Cst) :
    Reading.named (c.reading src).children = c.namedChildren.map (reading src) := by
  rw [children_reading, Reading.named, List.filter_map, namedChildren]
  simp only [Function.comp_def, head_reading]

theorem field?_children (field : String) (c : Cst) :
    field? field (c.reading src).children = (c.fieldChild? field).map (reading src) := by
  rw [children_reading, field?, List.find?_map, fieldChild?]
  simp only [Function.comp_def, head_reading]

theorem parametersOf_field (c : Cst) :
    parametersOf (field? "parameters" (c.reading src).children) = c.listedParameters src := by
  rw [field?_children, listedParameters]
  cases c.fieldChild? "parameters" with
  | none => rfl
  | some list =>
      rw [Option.map_some, parametersOf, named_children, List.filter_map, List.map_map]
      simp only [Function.comp_def, Reading.type, head_reading]

theorem declarator_name (h : c.head.isName) : (c.reading src).declarator =
    ⟨c.head.excerpt src, some (c.head.excerpt src), false, none⟩ := by
  rw [declarator_reading, declaratorOf, if_pos h]

/-- Parentheses around some declarator. -/
theorem declarator_parenthesized (htype : c.head.type = "parenthesized_declarator")
    (hd : c.namedChildren.head? = some d) :
    (c.reading src).declarator = ⟨c.head.excerpt src, (d.reading src).declarator.name, true,
      (d.reading src).declarator.parameters⟩ := by
  have hname : ¬ c.head.isName := by simp [Head.isName, htype, nameTypes]
  rw [declarator_reading, declaratorOf, if_neg hname, if_pos (beq_iff_eq.mpr htype),
    named_children, List.head?_map, hd]
  rfl

theorem innerDeclarator?_children (c : Cst) : innerDeclarator? (c.reading src).children =
    ((c.fieldChild? "declarator").or
      (c.namedChildren.find? fun d => d.head.isName || d.head.isDeclarator)).map (reading src) := by
  rw [innerDeclarator?, field?_children, named_children, List.find?_map, Option.map_or]
  simp only [Function.comp_def, head_reading]

/-- A declarator of any other kind around some declarator. -/
theorem declarator_around (hname : ¬ c.head.isName)
    (htype : c.head.type ≠ "parenthesized_declarator")
    (hd : c.fieldChild? "declarator" = some d ∨ c.fieldChild? "declarator" = none ∧
      c.namedChildren.find? (fun d => d.head.isName || d.head.isDeclarator) = some d) :
    (c.reading src).declarator = ⟨c.head.excerpt src, (d.reading src).declarator.name,
      (d.reading src).declarator.nested,
      (d.reading src).declarator.parameters.or (c.parameters? src)⟩ := by
  rw [declarator_reading, declaratorOf, if_neg hname, if_neg (mt beq_iff_eq.mp htype),
    innerDeclarator?_children, Option.or_eq_some_iff.mpr hd, parametersOf_field, parameters?]
  cases hinner : (d.reading src).declarator.parameters with
  | none => simp [hinner]
  | some ps => simp [hinner]

/-- A link adds to what is read of the next one. -/
theorem Next.declarator_eq (h : c.Next d) : (c.reading src).declarator =
    ⟨c.head.excerpt src, (d.reading src).declarator.name,
      c.head.type == "parenthesized_declarator" || (d.reading src).declarator.nested,
      (d.reading src).declarator.parameters.or (c.parameters? src)⟩ := by
  cases h with
  | inside htype hd =>
      have hnone : c.parameters? src = none := if_neg (by simp [htype])
      rw [declarator_parenthesized htype hd, beq_iff_eq.mpr htype, hnone, Option.or_none,
        Bool.true_or]
  | field hname htype hd =>
      rw [declarator_around hname htype (.inl hd), beq_false_of_ne htype, Bool.false_or]
  | first hname htype hfield hd =>
      rw [declarator_around hname htype (.inr ⟨hfield, hd⟩), beq_false_of_ne htype,
        Bool.false_or]

/-! ## All links -/

/-- Links without a function declarator have no parameters. -/
theorem findSome?_parameters?_eq_none (h : ∀ l ∈ links, l.head.type ≠ "function_declarator") :
    links.reverse.findSome? (parameters? src) = none := by
  rw [List.findSome?_eq_none_iff]
  intro l hl
  exact if_neg (h l (List.mem_reverse.mp hl))

/-- A function declarator with no other one between it and the name has the first parameters that
are found from the name outwards. -/
theorem findSome?_parameters?_closest (outer : List Cst) {f : Cst} {inner : List Cst}
    (hf : f.head.type = "function_declarator")
    (hinner : ∀ l ∈ inner, l.head.type ≠ "function_declarator") :
    (outer ++ f :: inner).reverse.findSome? (parameters? src) =
      some (f.listedParameters src) := by
  have hlisted : f.parameters? src = some (f.listedParameters src) := if_pos hf
  rw [List.reverse_append, List.reverse_cons, List.append_assoc, List.findSome?_append,
    findSome?_parameters?_eq_none hinner, Option.none_or, List.singleton_append,
    List.findSome?_cons, hlisted]

/-- What is read of a declarator, told by the links to its name. -/
theorem LeadsTo.declarator_eq (h : c.LeadsTo links name) : (c.reading src).declarator =
    ⟨c.head.excerpt src, some (name.head.excerpt src),
      links.any (·.head.type == "parenthesized_declarator"),
      links.reverse.findSome? (parameters? src)⟩ := by
  induction h with
  | name hname => exact declarator_name hname
  | link hnext _ ih =>
      rw [hnext.declarator_eq, ih, List.any_cons, List.reverse_cons, List.findSome?_append,
        List.findSome?_singleton]

/-- A node that is no name and leads nowhere declares no name. -/
theorem name_eq_none (hname : ¬ c.head.isName) (h : ∀ d, ¬ c.Next d) :
    (c.reading src).declarator.name = none := by
  rw [declarator_reading, declaratorOf, if_neg hname]
  split
  case isTrue htype =>
    have hd : c.namedChildren.head? = none :=
      Option.eq_none_iff_forall_not_mem.mpr fun d hd => h d (.inside (beq_iff_eq.mp htype) hd)
    rw [named_children, List.head?_map, hd]
    rfl
  case isFalse htype =>
    have htype : c.head.type ≠ "parenthesized_declarator" := mt beq_iff_eq.mpr htype
    have hfield : c.fieldChild? "declarator" = none :=
      Option.eq_none_iff_forall_not_mem.mpr fun d hd => h d (.field hname htype hd)
    have hfirst : c.namedChildren.find? (fun d => d.head.isName || d.head.isDeclarator) = none :=
      Option.eq_none_iff_forall_not_mem.mpr fun d hd => h d (.first hname htype hfield hd)
    rw [innerDeclarator?_children, hfield, hfirst]
    rfl

/-- If a node declares a name, then links lead to it. -/
theorem exists_leadsTo (c : Cst) (h : (c.reading src).declarator.name ≠ none) :
    ∃ links name, c.LeadsTo links name := by
  by_cases hname : c.head.isName
  · exact ⟨[], c, .name hname⟩
  · have hnext : ∃ d, c.Next d := by
      by_contra hnowhere
      exact h (name_eq_none hname (not_exists.mp hnowhere))
    obtain ⟨d, hd⟩ := hnext
    rw [hd.declarator_eq] at h
    -- the next link lies right inside this one
    have hsmaller : sizeOf d < sizeOf c := by
      have hmem := List.sizeOf_lt_of_mem hd.mem_children
      cases c
      simp only [Cst.children, node.sizeOf_spec] at hmem ⊢
      omega
    obtain ⟨links, name, hlinks⟩ := exists_leadsTo d h
    exact ⟨c :: links, name, .link hd hlinks⟩
termination_by sizeOf c

/-- Where links lead from a declarator to a name, however many: this is the name that it
declares, the name is nested just if some link is a pair of parentheses, and the parameters are
those of the function declarator closest to the name, if there is one.  Where none lead to a
name, it declares none. -/
theorem declarator_told_by_links (src : Octets) (c : Cst) :
    (∀ links name, c.LeadsTo links name →
      (c.reading src).declarator.name = some (name.head.excerpt src) ∧
      ((c.reading src).declarator.nested = true ↔
        ∃ l ∈ links, l.head.type = "parenthesized_declarator") ∧
      (∀ outer f inner, links = outer ++ f :: inner → f.head.type = "function_declarator" →
        (∀ l ∈ inner, l.head.type ≠ "function_declarator") →
        (c.reading src).declarator.parameters = some (f.listedParameters src)) ∧
      ((∀ l ∈ links, l.head.type ≠ "function_declarator") →
        (c.reading src).declarator.parameters = none)) ∧
    ((∀ links name, ¬ c.LeadsTo links name) → (c.reading src).declarator.name = none) := by
  refine ⟨fun links name h => ?_, fun hnowhere => ?_⟩
  · rw [h.declarator_eq]
    refine ⟨rfl, ?_, ?_, findSome?_parameters?_eq_none⟩
    · show links.any (·.head.type == "parenthesized_declarator") = true ↔ _
      simp only [List.any_eq_true, beq_iff_eq]
    · rintro outer f inner rfl hf hinner
      exact findSome?_parameters?_closest outer hf hinner
  · by_contra hsome
    obtain ⟨links, name, hlinks⟩ := exists_leadsTo c hsome
    exact hnowhere links name hlinks

end

/-! A block that takes a number, returned by a function that takes another one.  The caret
has no field for what it stands before:

    (^f(int a))(int b)
-/

def returnedBytes : Octets := Text.Utf8.encode "(^f(int a))(int b)"

/-- One parameter in parentheses, of a type and a name that are three bytes and one byte long. -/
def parameterList (start : Int) : Cst :=
  inField "parameters" (branch "parameter_list" start (start + 7)
    [leaf "(" start (start + 1) false,
      branch "parameter_declaration" (start + 1) (start + 6)
        [inField "type" (leaf "primitive_type" (start + 1) (start + 4) true),
          inField "declarator" (leaf "identifier" (start + 5) (start + 6) true)],
      leaf ")" (start + 6) (start + 7) false])

def returnedName : Cst := inField "declarator" (leaf "identifier" 2 3 true)

def returningFunction : Cst := branch "function_declarator" 2 10 [returnedName, parameterList 3]

def returnedBlock : Cst :=
  branch "block_pointer_declarator" 1 10 [leaf "^" 1 2 false, returningFunction]

def returnedGroup : Cst :=
  inField "declarator" (branch "parenthesized_declarator" 0 11
    [leaf "(" 0 1 false, returnedBlock, leaf ")" 10 11 false])

def returnedDeclarator : Cst :=
  branch "function_declarator" 0 18 [returnedGroup, parameterList 11]

theorem declarator_told_by_links_block :
    returnedDeclarator.LeadsTo
        [returnedDeclarator, returnedGroup, returnedBlock, returningFunction] returnedName ∧
    (returnedDeclarator.reading returnedBytes).declarator.name = some ⟨"f", 2, 2⟩ ∧
    (returnedDeclarator.reading returnedBytes).declarator.nested = true ∧
    (returnedDeclarator.reading returnedBytes).declarator.parameters =
      some (returningFunction.listedParameters returnedBytes) ∧
    (returningFunction.listedParameters returnedBytes).map (·.excerpt.text) = ["int a"] := by
  have hlinks : returnedDeclarator.LeadsTo
      [returnedDeclarator, returnedGroup, returnedBlock, returningFunction] returnedName :=
    .link (.field (by decide) (by decide) rfl) <|
      .link (.inside (by decide) rfl) <|
        .link (.first (by decide) (by decide) rfl rfl) <|
          .link (.field (by decide) (by decide) rfl) <| .name (by decide)
  obtain ⟨hname, hnested, hparameters, -⟩ :=
    (declarator_told_by_links returnedBytes returnedDeclarator).1 _ _ hlinks
  refine ⟨hlinks, ?_, ?_, ?_, by decide +kernel⟩
  · rw [hname]
    decide +kernel
  · exact hnested.mpr ⟨returnedGroup, by simp, rfl⟩
  · exact hparameters [returnedDeclarator, returnedGroup, returnedBlock] returningFunction [] rfl
      rfl fun _ => nofun

end SymbolGraph.Cst
