import Mathlib.Data.List.Basic
import SymbolGraph.Cst.Parse

/-!
# `Proofs.Trimmed` — readings without their remarks

A remark is a comment that fills no field and holds no error.  `trim` takes the remarks
below a reading away and changes nothing else.  Most of what is read off a list of
children asks for types and fields that a remark does not have (`Skips`), so it is the
same for the trimmed list, at every depth.  What counts children or goes by their
position is not: those lemmas have a condition.
-/

namespace SymbolGraph.Reading

mutual

/-- The node, or some node in it, is missing or an error. -/
def hasError : Reading → Bool
  | ⟨head, _, _, _, _, _, children⟩ => head.isError || head.missing || anyHasError children

def anyHasError : List Reading → Bool
  | [] => false
  | r :: rest => hasError r || anyHasError rest

end

/-- A comment between other nodes. -/
def isRemark (r : Reading) : Bool :=
  r.type == "comment" && r.head.named && r.head.field.isNone && !r.hasError

mutual

/-- The reading without the remarks below it. -/
def trim : Reading → Reading
  | ⟨head, excerpt, node, names, specifiers, declarator, children⟩ =>
      ⟨head, excerpt, node, names, specifiers, declarator, trimAll children⟩

def trimAll : List Reading → List Reading
  | [] => []
  | r :: rest => if r.isRemark then trimAll rest else trim r :: trimAll rest

end

section Trim

variable (r : Reading)

@[simp] theorem head_trim : r.trim.head = r.head := by cases r; rw [trim]
@[simp] theorem type_trim : r.trim.type = r.type := by cases r; rw [trim]; rfl
@[simp] theorem excerpt_trim : r.trim.excerpt = r.excerpt := by cases r; rw [trim]
@[simp] theorem node_trim : r.trim.node = r.node := by cases r; rw [trim]
@[simp] theorem names_trim : r.trim.names = r.names := by cases r; rw [trim]
@[simp] theorem specifiers_trim : r.trim.specifiers = r.specifiers := by cases r; rw [trim]
@[simp] theorem declarator_trim : r.trim.declarator = r.declarator := by cases r; rw [trim]
@[simp] theorem children_trim : r.trim.children = trimAll r.children := by cases r; rw [trim]

end Trim

theorem trimAll_eq (rs : List Reading) : trimAll rs = (rs.filter (!·.isRemark)).map trim := by
  induction rs with
  | nil => rfl
  | cons r rest ih =>
    rw [trimAll]
    by_cases h : r.isRemark <;> simp [h, ih]

theorem type_of_isRemark {r : Reading} (h : r.isRemark) : r.type = "comment" := by
  simp only [isRemark, Bool.and_eq_true, beq_iff_eq] at h
  exact h.1.1.1

theorem named_of_isRemark {r : Reading} (h : r.isRemark) : r.head.named := by
  simp only [isRemark, Bool.and_eq_true] at h
  exact h.1.1.2

theorem field_of_isRemark {r : Reading} (h : r.isRemark) : r.head.field = none := by
  simp only [isRemark, Bool.and_eq_true, Option.isNone_iff_eq_none] at h
  exact h.1.2

/-! ## Tests that no remark passes -/

/-- The test looks at the head only, and fails for remarks. -/
structure Skips (p : Reading → Bool) : Prop where
  trim : ∀ r, p r.trim = p r
  remark : ∀ r, r.type = "comment" → r.head.field = none → p r = false

namespace Skips

variable {p : Reading → Bool} {rs : List Reading}

theorem of_isRemark (hp : Skips p) {r : Reading} (h : r.isRemark) : p r = false :=
  hp.remark r (type_of_isRemark h) (field_of_isRemark h)

theorem filter_trimAll (hp : Skips p) : (trimAll rs).filter p = (rs.filter p).map .trim := by
  induction rs with
  | nil => rfl
  | cons r rest ih =>
    rw [trimAll]
    by_cases h : r.isRemark
    · simp [h, hp.of_isRemark h, ih]
    · by_cases hr : p r <;> simp [h, hp.trim, hr, ih]

theorem find?_trimAll (hp : Skips p) : (trimAll rs).find? p = (rs.find? p).map .trim := by
  rw [← List.head?_filter, ← List.head?_filter, hp.filter_trimAll, List.head?_map]

theorem any_trimAll (hp : Skips p) : (trimAll rs).any p = rs.any p := by
  rw [Bool.eq_iff_iff, List.any_eq_true, List.any_eq_true, ← List.find?_isSome,
    ← List.find?_isSome, hp.find?_trimAll, Option.isSome_map]

end Skips

theorem skips_field (field : String) : Skips (·.head.field == some field) where
  trim r := by rw [head_trim]
  remark r _ hfield := by rw [hfield]; rfl

/-- A test of the type, which must not let comments pass. -/
theorem skips_type {q : String → Bool} (h : q "comment" = false) : Skips fun r => q r.type where
  trim r := by rw [type_trim]
  remark r htype _ := by rw [htype, h]

/-- A test of the head alone may come before trimming. -/
theorem filter_trimAll_comm {p : Reading → Bool} (hp : ∀ r, p r.trim = p r) (rs : List Reading) :
    (trimAll rs).filter p = trimAll (rs.filter p) := by
  induction rs with
  | nil => rfl
  | cons r rest ih =>
    rw [trimAll]
    by_cases h : r.isRemark <;> by_cases hr : p r <;> simp [h, hr, hp, ih, trimAll]

theorem named_trimAll (rs : List Reading) : named (trimAll rs) = trimAll (named rs) :=
  filter_trimAll_comm (fun r => by rw [head_trim]) rs

/-! ## Fields and types -/

variable {rs : List Reading}

theorem filling_trimAll (field : String) :
    filling field (trimAll rs) = (filling field rs).map trim :=
  (skips_field field).filter_trimAll

theorem field?_trimAll (field : String) : field? field (trimAll rs) = (field? field rs).map trim :=
  (skips_field field).find?_trimAll

theorem fieldExcerpt?_trimAll (field : String) :
    fieldExcerpt? field (trimAll rs) = fieldExcerpt? field rs := by
  rw [fieldExcerpt?, field?_trimAll, Option.map_map]
  congr 1
  funext r
  exact excerpt_trim r

theorem fieldNode?_trimAll (field : String) :
    fieldNode? field (trimAll rs) = fieldNode? field rs := by
  rw [fieldNode?, field?_trimAll]
  cases h : field? field rs <;> simp [fieldNode?, h]

theorem hasType_trimAll {type : String} (h : type ≠ "comment") :
    hasType type (trimAll rs) = hasType type rs :=
  (skips_type (q := (· == type)) (by simpa using h.symm)).any_trimAll

/-- Children of certain types that are not punctuation. -/
theorem filter_named_trimAll {p : Reading → Bool} (hp : Skips p) :
    (named (trimAll rs)).filter p = ((named rs).filter p).map trim := by
  rw [named_trimAll, hp.filter_trimAll]

theorem find?_named_trimAll {p : Reading → Bool} (hp : Skips p) :
    (named (trimAll rs)).find? p = ((named rs).find? p).map trim := by
  rw [named_trimAll, hp.find?_trimAll]

/-! ## Specifiers -/

theorem skips_isProtocolList : Skips (·.head.isProtocolList) :=
  skips_type (q := protocolListTypes.contains) (by decide)

theorem skips_isSpecifier : Skips (·.head.isSpecifier) :=
  skips_type (q := specifierTypes.contains) (by decide)

theorem protocolsIn_trimAll : protocolsIn (trimAll rs) = protocolsIn rs := by
  rw [protocolsIn, filter_named_trimAll skips_isProtocolList, List.flatMap_map]
  simp [protocolsIn]

theorem specifiersIn_trimAll : specifiersIn (trimAll rs) = specifiersIn rs := by
  simp only [specifiersIn, protocolsIn_trimAll, filling_trimAll, List.isEmpty_map,
    filter_named_trimAll skips_isSpecifier]
  split <;> simp [List.flatMap_map]

@[simp] theorem typeName_trim (r : Reading) : r.trim.typeName = r.typeName := by
  have hskips : Skips fun c => c.type == "type_descriptor" || c.type == "type_name" :=
    skips_type (q := fun t => t == "type_descriptor" || t == "type_name") (by decide)
  simp only [typeName, excerpt_trim, children_trim, find?_named_trimAll hskips]
  cases (named r.children).find? _ <;> simp [specifiersIn_trimAll]

@[simp] theorem enumerator_trim (r : Reading) : enumerator r.trim = enumerator r := by
  simp only [enumerator, excerpt_trim, children_trim, fieldExcerpt?_trimAll, fieldNode?_trimAll]

theorem enumeration_trimAll (excerpt : Excerpt) :
    enumeration excerpt (trimAll rs) = enumeration excerpt rs := by
  have hskips : Skips (·.type == "enumerator") := skips_type (q := (· == "enumerator")) (by decide)
  simp only [enumeration, fieldExcerpt?_trimAll, field?_trimAll]
  congr 1
  · cases field? "underlying_type" rs <;> simp
  · cases field? "body" rs with
    | none => rfl
    | some body => simp [filter_named_trimAll hskips, Function.comp_def]

@[simp] theorem predefinedPart_trim (r : Reading) : predefinedPart r.trim = predefinedPart r := by
  simp only [predefinedPart, head_trim, type_trim, excerpt_trim, specifiers_trim]

/-! ## Declarators -/

@[simp] theorem parameter_trim (r : Reading) : parameter r.trim = parameter r := by
  simp only [parameter, excerpt_trim, children_trim, specifiersIn_trimAll, field?_trimAll]
  cases field? "declarator" r.children <;> simp

theorem parametersOf_map_trim (r : Option Reading) :
    parametersOf (r.map trim) = parametersOf r := by
  have hskips : Skips fun c => Text.has c.type "parameter" :=
    skips_type (q := (Text.has · "parameter")) (by decide)
  cases r with
  | none => rfl
  | some r => simp [parametersOf, filter_named_trimAll hskips, Function.comp_def]

theorem innerDeclarator?_trimAll :
    innerDeclarator? (trimAll rs) = (innerDeclarator? rs).map trim := by
  have hskips : Skips fun c => c.head.isName || c.head.isDeclarator :=
    skips_type (q := fun t => nameTypes.contains t || Text.endsWith t "declarator") (by decide)
  simp only [innerDeclarator?, field?_trimAll, find?_named_trimAll hskips]
  cases field? "declarator" rs <;> rfl

theorem declaredNames_trimAll : declaredNames (trimAll rs) = declaredNames rs := by
  have hskips : Skips fun c =>
      c.head.isDeclarator || c.type == "field_identifier" || c.type == "identifier" :=
    skips_type (q := fun t =>
      Text.endsWith t "declarator" || t == "field_identifier" || t == "identifier") (by decide)
  simp only [declaredNames, filling_trimAll, List.isEmpty_map, filter_named_trimAll hskips]
  split <;> simp [List.filterMap_map]

@[simp] theorem bareDeclarator_trim (r : Reading) : bareDeclarator r.trim = bareDeclarator r := by
  simp [bareDeclarator]

@[simp] theorem initDeclarator_trim (r : Reading) : initDeclarator r.trim = initDeclarator r := by
  simp only [initDeclarator, type_trim, excerpt_trim, children_trim, field?_trimAll,
    fieldNode?_trimAll, bareDeclarator_trim]
  cases field? "declarator" r.children <;> simp

theorem declaration_trimAll (excerpt : Excerpt) :
    declaration excerpt (trimAll rs) = declaration excerpt rs := by
  have hskips : Skips (·.type == "storage_class_specifier") :=
    skips_type (q := (· == "storage_class_specifier")) (by decide)
  simp [declaration, filter_named_trimAll hskips, specifiersIn_trimAll, filling_trimAll,
    Function.comp_def]

theorem typeDefinition_trimAll (excerpt : Excerpt) :
    typeDefinition excerpt (trimAll rs) = typeDefinition excerpt rs := by
  simp [typeDefinition, specifiersIn_trimAll, filling_trimAll, Function.comp_def]

@[simp] theorem ivar_trim (visibility : Option String) (r : Reading) :
    ivar visibility r.trim = ivar visibility r := by
  have hskips : Skips (·.head.isIvar) := skips_type (q := ivarTypes.contains) (by decide)
  simp only [ivar, children_trim, filling_trimAll, List.isEmpty_map, filter_named_trimAll hskips,
    excerpt_trim]
  by_cases hmarked : (filling "type" r.children).isEmpty
  · rw [if_pos hmarked, if_pos hmarked]
    -- The line itself, unless exactly one of its children is a line.
    generalize (named r.children).filter (·.head.isIvar) = lines
    match lines with
    | [] => simp [specifiersIn_trimAll, declaredNames_trimAll]
    | [inner] => simp [specifiersIn_trimAll, declaredNames_trimAll]
    | _ :: _ :: _ => simp [specifiersIn_trimAll, declaredNames_trimAll]
  · rw [if_neg hmarked, if_neg hmarked]
    simp [specifiersIn_trimAll, declaredNames_trimAll]

/-! ## Methods -/

theorem isName_of_isRemark {r : Reading} (h : r.isRemark) : r.head.isName = false := by
  rw [Head.isName, show r.head.type = "comment" from type_of_isRemark h]
  decide

theorem keywordNames_trimAll (keyword name : Option Excerpt) (afterColon : Bool) :
    keywordNames keyword name afterColon (trimAll rs) =
      keywordNames keyword name afterColon rs := by
  induction rs generalizing keyword name afterColon with
  | nil => rfl
  | cons r rest ih =>
    rw [trimAll]
    by_cases h : r.isRemark
    · simp [h, ih, keywordNames, type_of_isRemark h, isName_of_isRemark h]
    · rw [if_neg h]
      simp only [keywordNames, type_trim, head_trim, excerpt_trim, ih]

@[simp] theorem keywordDeclarator_trim (src : Octets) (pending : Option Excerpt) (r : Reading) :
    keywordDeclarator src pending r.trim = keywordDeclarator src pending r := by
  have hskips : Skips (·.type == "method_type") :=
    skips_type (q := (· == "method_type")) (by decide)
  simp only [keywordDeclarator, children_trim, fieldExcerpt?_trimAll, keywordNames_trimAll,
    hskips.filter_trimAll, head_trim, List.getLast?_map, Option.map_map]
  congr 2
  funext c
  exact typeName_trim c

/-- The state in which a trimmed body has been read. -/
def MethodState.trim (s : MethodState) : MethodState := { s with body := s.body.map .trim }

theorem MethodState.step_trim (src : Octets) (s : MethodState) (r : Reading) :
    s.trim.step src r.trim = (s.step src r).trim := by
  simp only [MethodState.step, type_trim, head_trim, excerpt_trim, typeName_trim,
    keywordDeclarator_trim, MethodState.trim]
  repeat' split
  all_goals rfl

theorem MethodState.step_remark (src : Octets) (s : MethodState) {r : Reading} (h : r.isRemark) :
    s.step src r = s := by
  simp only [MethodState.step, type_of_isRemark h, isName_of_isRemark h]
  cases s.current <;> rfl

theorem methodState_trimAll (src : Octets) :
    methodState src (trimAll rs) = (methodState src rs).trim := by
  have hfold : ∀ s : MethodState, (trimAll rs).foldl (MethodState.step src) s.trim =
      (rs.foldl (MethodState.step src) s).trim := by
    induction rs with
    | nil => exact fun _ => rfl
    | cons r rest ih =>
      intro s
      rw [trimAll]
      by_cases h : r.isRemark
      · rw [if_pos h, List.foldl_cons, MethodState.step_remark src s h, ih]
      · rw [if_neg h, List.foldl_cons, MethodState.step_trim, ih, List.foldl_cons]
  have hfinish : ∀ s : MethodState, s.trim.finish = s.finish.trim := by
    intro s
    simp only [MethodState.finish, MethodState.trim]
    split <;> rfl
  exact (congrArg MethodState.finish (hfold {})).trans (hfinish _)

/-! ## Statements and expressions -/

theorem lastBlock?_trimAll : lastBlock? (trimAll rs) = (lastBlock? rs).map trim := by
  have hskips : Skips (·.type == "compound_statement") :=
    skips_type (q := (· == "compound_statement")) (by decide)
  rw [lastBlock?, filter_named_trimAll hskips, List.getLast?_map, lastBlock?]

theorem bind_node_trim (r : Option Reading) : (r.map trim).bind (·.node) = r.bind (·.node) := by
  cases r <;> simp

@[simp] theorem catchParameter_trim (r : Reading) : catchParameter r.trim = catchParameter r := by
  have hskips : Skips fun c => c.head.isDeclarator || c.type == "identifier" :=
    skips_type (q := fun t => Text.endsWith t "declarator" || t == "identifier") (by decide)
  simp only [catchParameter, excerpt_trim, children_trim, specifiersIn_trimAll, field?_trimAll,
    find?_named_trimAll hskips]
  congr 1
  cases field? "declarator" r.children <;> simp [Option.map_map, Function.comp_def]

theorem catchClause_trimAll (excerpt : Excerpt) :
    catchClause excerpt (trimAll rs) = catchClause excerpt rs := by
  have hskips : Skips fun c => c.type != "compound_statement" &&
      (Text.has c.type "parameter" || c.type == "type_name") :=
    skips_type (q := fun t => t != "compound_statement" &&
      (Text.has t "parameter" || t == "type_name")) (by decide)
  simp only [catchClause, find?_named_trimAll hskips, lastBlock?_trimAll, bind_node_trim,
    Option.map_map, Function.comp_def, catchParameter_trim]

theorem block_trimAll (excerpt : Excerpt) : block excerpt (trimAll rs) = block excerpt rs := by
  have hskips : Skips (·.type == "parameter_list") :=
    skips_type (q := (· == "parameter_list")) (by decide)
  simp only [block, filter_named_trimAll hskips, List.getLast?_map, parametersOf_map_trim,
    lastBlock?_trimAll, bind_node_trim]

theorem memberAccess_trimAll (excerpt : Excerpt) :
    memberAccess excerpt (trimAll rs) = memberAccess excerpt rs := by
  simp only [memberAccess, fieldNode?_trimAll, fieldExcerpt?_trimAll,
    hasType_trimAll (show "->" ≠ "comment" by decide)]

theorem cast_trimAll (excerpt : Excerpt) : cast excerpt (trimAll rs) = cast excerpt rs := by
  simp only [cast, field?_trimAll, fieldNode?_trimAll, Option.map_map, Function.comp_def,
    typeName_trim]

theorem function_trimAll (excerpt : Excerpt) :
    function excerpt (trimAll rs) = function excerpt rs := by
  simp only [function, specifiersIn_trimAll, field?_trimAll, fieldNode?_trimAll, Option.map_map,
    Function.comp_def, declarator_trim]

theorem inclusion_trimAll (src : Octets) (head : Head) (excerpt : Excerpt) :
    inclusion src head excerpt (trimAll rs) = inclusion src head excerpt rs := by
  simp only [inclusion, field?_trimAll]
  split
  · rfl
  · cases field? "path" rs <;> simp

/-! ## Names and constructs

A remark is no construct, and unless something in it is a name, it holds none. -/

/-- Remarks among the children add nothing. -/
def Silent (rs : List Reading) : Prop := ∀ r ∈ rs, r.isRemark → r.node = none ∧ r.names = []

theorem Silent.filter (h : Silent rs) (p : Reading → Bool) : Silent (rs.filter p) :=
  fun r hr => h r (List.mem_of_mem_filter hr)

theorem Silent.flatMap_trimAll {α : Type} (h : Silent rs) {f : Reading → List α}
    (htrim : ∀ r, f r.trim = f r) (hnone : ∀ r : Reading, r.node = none → r.names = [] → f r = []) :
    (trimAll rs).flatMap f = rs.flatMap f := by
  induction rs with
  | nil => rfl
  | cons r rest ih =>
    have hrest := ih fun x hx => h x (List.mem_cons_of_mem _ hx)
    rw [trimAll]
    by_cases hr : r.isRemark
    · obtain ⟨hnode, hnames⟩ := h r List.mem_cons_self hr
      simp [hr, hrest, hnone r hnode hnames]
    · simp [hr, hrest, htrim]

theorem Silent.names_trimAll (h : Silent rs) :
    (trimAll rs).flatMap (·.names) = rs.flatMap (·.names) :=
  h.flatMap_trimAll names_trim fun _ _ hnames => hnames

theorem Silent.nodes_trimAll (h : Silent rs) : nodes (trimAll rs) = nodes rs := by
  rw [nodes, named_trimAll, List.filterMap_eq_flatMap_toList, nodes,
    List.filterMap_eq_flatMap_toList]
  refine (h.filter _).flatMap_trimAll (fun r => by rw [node_trim]) fun r hnode _ => ?_
  rw [hnode]
  rfl

theorem Silent.namesOf_trimAll (h : Silent rs) (head : Head) (excerpt : Excerpt) :
    namesOf head excerpt (trimAll rs) = namesOf head excerpt rs := by
  have hnamed : Silent (named rs) := h.filter _
  rw [namesOf, named_trimAll, hnamed.names_trimAll, namesOf]

/-! ## Loops -/

theorem inHeader_trimAll : inHeader (trimAll rs) = (inHeader rs).map trim := by
  have hskips : Skips fun c =>
      c.head.isSpecifier || c.type == "identifier" || c.head.isDeclarator :=
    skips_type (q := fun t =>
      specifierTypes.contains t || t == "identifier" || Text.endsWith t "declarator") (by decide)
  have htake : (trimAll rs).takeWhile (·.type != "in") =
      trimAll (rs.takeWhile (·.type != "in")) := by
    induction rs with
    | nil => rfl
    | cons r rest ih =>
      rw [trimAll]
      by_cases h : r.isRemark
      · rw [if_pos h, ih, List.takeWhile_cons_of_pos (by simp [type_of_isRemark h]), trimAll,
          if_pos h]
      · rw [if_neg h]
        by_cases hr : r.type != "in"
        · simp [hr, ih, trimAll, h]
        · simp [hr, trimAll]
  rw [inHeader, htake, hskips.filter_trimAll, inHeader]

theorem inDeclaration?_trimAll (excerpt : Excerpt) :
    inDeclaration? excerpt (trimAll rs) = inDeclaration? excerpt rs := by
  simp only [inDeclaration?, inHeader_trimAll, List.filter_map, List.isEmpty_map, List.flatMap_map,
    List.map_map, Function.comp_def, head_trim, type_trim, specifiers_trim, bareDeclarator_trim]

theorem loopHeader_trimAll (excerpt : Excerpt) :
    loopHeader excerpt (trimAll rs) =
      ((loopHeader excerpt rs).1, (loopHeader excerpt rs).2.map trim) := by
  have hskips : Skips (·.type == "declaration") :=
    skips_type (q := (· == "declaration")) (by decide)
  have hstart : (field? "initializer" (trimAll rs)).filter (·.type == "declaration") =
      ((field? "initializer" rs).filter (·.type == "declaration")).map trim := by
    rw [field?_trimAll]
    cases field? "initializer" rs with
    | none => rfl
    | some r => by_cases h : r.type == "declaration" <;> simp [Option.filter, h]
  simp only [loopHeader, hstart, filling_trimAll, List.isEmpty_map, find?_named_trimAll hskips,
    hasType_trimAll (show "in" ≠ "comment" by decide), inDeclaration?_trimAll, inHeader_trimAll,
    specifiersIn_trimAll]
  cases (field? "initializer" rs).filter _ with
  | some r => simp [declaration_trimAll]
  | none =>
    simp only [Option.map_none]
    split
    · simp [Function.comp_def]
    split
    · cases inDeclaration? excerpt rs <;> rfl
    · cases (named rs).find? _ <;> simp [declaration_trimAll]

theorem Silent.nodesExcept_trimAll (h : Silent rs) (excluded : List Reading) :
    nodesExcept (excluded.map trim) (trimAll rs) = nodesExcept excluded rs := by
  rw [nodesExcept, filter_trimAll_comm (fun r => by rw [head_trim]), nodesExcept,
    (h.filter _).nodes_trimAll]
  simp [Function.comp_def]

theorem Silent.loop_trimAll (h : Silent rs) (excerpt : Excerpt) :
    loop excerpt (trimAll rs) = loop excerpt rs := by
  simp only [loop, loopHeader_trimAll, field?_trimAll, bind_node_trim, Option.toList_map,
    ← List.map_append, h.nodesExcept_trimAll]

end SymbolGraph.Reading
