import SymbolGraph.Proofs.Issues

/-!
# `Proofs.Checked` — reading a tree with accesses that can fail

The readings of `Cst.Reading` are total: where there is no first or last element they have
something else to say.  Here the same nodes are read by scans that TAKE the first element of
a list, its last one, or a byte that was to be set on the way, and break off if it is not
there:

    first, last     an element of a list
    assigned        a value that is set somewhere in a scan

Every access stands behind a test or at the end of a scan that has made sure of it, so none
ever fails, whatever the types and fields of the nodes: each scan gives what the reading of
the same name gives (the theorems `..._eq`).  The one thing left that can fail is the first
line of an error without a text, which a tree inside its source does not have.

The scans are strict: they look at every node in every role, so what they do not fail on is
read without failing in any order and from any place.
-/

namespace SymbolGraph

/-- Why a scan is broken off. -/
inductive Fault where
  /-- An element is taken from a list that has none. -/
  | noElement
  /-- A value is used that was never set. -/
  | unset
  /-- There is no list of issues. -/
  | issues (e : ParseError)
  deriving Repr, DecidableEq

namespace Checked

open SymbolGraph.Reading

/-! ## Accesses -/

section

variable {α β σ : Type}

/-- The first element, which has to be there. -/
def first : List α → Except Fault α
  | [] => .error .noElement
  | a :: _ => .ok a

/-- The last element, which has to be there. -/
def last : List α → Except Fault α
  | [] => .error .noElement
  | [a] => .ok a
  | _ :: rest => last rest

/-- A value, which has to be set. -/
def assigned : Option α → Except Fault α
  | none => .error .unset
  | some a => .ok a

/-- What the first element gives, if the list has one. -/
def firstOr (absent : β) (f : α → β) (as : List α) : Except Fault β :=
  if as.isEmpty then .ok absent else (first as).map f

theorem firstOr_eq (absent : β) (f : α → β) (as : List α) :
    firstOr absent f as = .ok ((as.head?.map f).getD absent) := by
  cases as <;> rfl

theorem last_concat (as : List α) (a : α) : last (as ++ [a]) = .ok a := by
  induction as with
  | nil => rfl
  | cons b as ih =>
      cases as with
      | nil => rfl
      | cons c as => exact ih

theorem last_cons (a : α) (as : List α) : last (a :: as) = .ok (as.getLastD a) := by
  rcases List.eq_nil_or_concat as with rfl | ⟨before, b, rfl⟩
  · rfl
  · rw [List.concat_eq_append, ← List.cons_append, last_concat, List.getLastD_concat]

theorem mapM_ok {f : α → Except Fault β} {g : α → β} (h : ∀ a, f a = .ok (g a)) (as : List α) :
    as.mapM f = .ok (as.map g) := by
  rw [show f = fun a => pure (g a) from funext h, List.mapM_pure]
  rfl

theorem optionMapM_ok {f : α → Except Fault β} {g : α → β} (h : ∀ a, f a = .ok (g a))
    (a : Option α) : a.mapM f = .ok (a.map g) := by
  cases a with
  | none => rfl
  | some a =>
      rw [Option.mapM_some, h]
      rfl

theorem foldlM_ok {f : σ → α → Except Fault σ} {g : σ → α → σ} (h : ∀ s a, f s a = .ok (g s a))
    (s : σ) (as : List α) : as.foldlM f s = .ok (as.foldl g s) := by
  rw [show f = fun s a => pure (g s a) from funext fun s => funext (h s), List.foldlM_pure]
  rfl

end

/-! ## Types -/

/-- Gives protocols to the last specifier. -/
def giveToLast (more : List Excerpt) (specifiers : List Specifier) :
    Except Fault (List Specifier) := do
  let s ← last specifiers
  return specifiers.dropLast ++ [s.addProtocols more]

/-- Gives the protocols of a list to the last specifier, if there is one. -/
def giveListed (specifiers : List Specifier) (r : Reading) : Except Fault (List Specifier) :=
  if r.head.isProtocolList && !specifiers.isEmpty then giveToLast r.names specifiers
  else .ok specifiers

def specifiersIn (children : List Reading) : Except Fault (List Specifier) :=
  let marked := filling "type" children
  let types := if marked.isEmpty then (named children).filter (·.head.isSpecifier) else marked
  (named children).foldlM giveListed (types.flatMap (·.specifiers))

def typeName (r : Reading) : Except Fault TypeName := do
  let inner := (named r.children).find? fun c =>
    c.type == "type_descriptor" || c.type == "type_name"
  let specifiers ← specifiersIn (inner.getD r).children
  return ⟨r.excerpt, specifiers⟩

def specifiersOf (head : Head) (excerpt : Excerpt) (children : List Reading) :
    Except Fault (List Specifier) :=
  if head.type = "typedefed_specifier" then
    let specifiers := children.flatMap predefinedPart
    if specifiers.isEmpty then .ok [] else giveToLast (protocolsIn children) specifiers
  else .ok (Reading.specifiersOf head excerpt children)

theorem addProtocolsToLast_concat (more : List Excerpt) (s : Specifier) :
    ∀ before : List Specifier, Specifier.addProtocolsToLast more (before ++ [s]) =
      before ++ [s.addProtocols more]
  | [] => rfl
  | [_] => rfl
  | b :: c :: before =>
      congrArg (b :: ·) (addProtocolsToLast_concat more s (c :: before))

theorem giveToLast_eq (more : List Excerpt) {specifiers : List Specifier} (h : specifiers ≠ []) :
    giveToLast more specifiers = .ok (Specifier.addProtocolsToLast more specifiers) := by
  obtain ⟨before, s, rfl⟩ := (List.eq_nil_or_concat specifiers).resolve_left h
  rw [List.concat_eq_append, giveToLast, last_concat, addProtocolsToLast_concat,
    List.dropLast_concat]
  rfl

theorem addProtocols_append (a b : List Excerpt) (s : Specifier) :
    (s.addProtocols a).addProtocols b = s.addProtocols (a ++ b) := by
  cases s <;> simp [Specifier.addProtocols]

theorem addProtocolsToLast_append (a b : List Excerpt) (specifiers : List Specifier) :
    Specifier.addProtocolsToLast b (Specifier.addProtocolsToLast a specifiers) =
      Specifier.addProtocolsToLast (a ++ b) specifiers := by
  rcases List.eq_nil_or_concat specifiers with rfl | ⟨before, s, rfl⟩
  · rfl
  · simp only [List.concat_eq_append, addProtocolsToLast_concat, addProtocols_append]

theorem addProtocolsToLast_nil (specifiers : List Specifier) :
    Specifier.addProtocolsToLast [] specifiers = specifiers := by
  rcases List.eq_nil_or_concat specifiers with rfl | ⟨before, s, rfl⟩
  · rfl
  · rw [List.concat_eq_append, addProtocolsToLast_concat]
    cases s <;> simp [Specifier.addProtocols]

/-- One list after the other, the last specifier gets the protocols of all. -/
theorem foldlM_giveListed : ∀ (rs : List Reading) (specifiers : List Specifier),
    rs.foldlM giveListed specifiers =
      .ok (Specifier.addProtocolsToLast ((rs.filter (·.head.isProtocolList)).flatMap (·.names))
        specifiers)
  | [], specifiers => by simp [addProtocolsToLast_nil]; rfl
  | r :: rs, specifiers => by
      have hstep : giveListed specifiers r = .ok (Specifier.addProtocolsToLast
          (if r.head.isProtocolList then r.names else []) specifiers) := by
        unfold giveListed
        by_cases hlist : r.head.isProtocolList
        · by_cases hnil : specifiers = []
          · subst hnil
            simp [Specifier.addProtocolsToLast]
          · simp [hlist, hnil, giveToLast_eq]
        · simp [hlist, addProtocolsToLast_nil]
      have hrest := foldlM_giveListed rs (Specifier.addProtocolsToLast
        (if r.head.isProtocolList then r.names else []) specifiers)
      rw [List.foldlM_cons, hstep]
      refine hrest.trans ?_
      rw [addProtocolsToLast_append]
      by_cases hlist : r.head.isProtocolList <;> simp [hlist]

@[simp] theorem specifiersIn_eq (children : List Reading) :
    specifiersIn children = .ok (Reading.specifiersIn children) := foldlM_giveListed _ _

@[simp] theorem typeName_eq (r : Reading) : typeName r = .ok r.typeName := by
  rw [typeName, specifiersIn_eq]
  rfl

theorem specifiersOf_eq (head : Head) (excerpt : Excerpt) (children : List Reading) :
    specifiersOf head excerpt children = .ok (Reading.specifiersOf head excerpt children) := by
  unfold specifiersOf
  split
  · next htype =>
    have hpure : Reading.specifiersOf head excerpt children =
        Specifier.addProtocolsToLast (protocolsIn children) (children.flatMap predefinedPart) := by
      simp [Reading.specifiersOf, htype]
    rw [hpure]
    by_cases hnil : children.flatMap predefinedPart = []
    · simp [hnil, Specifier.addProtocolsToLast]
    · simp [hnil, giveToLast_eq]
  · rfl

/-! ## Declarators and declarations -/

def parameter (r : Reading) : Except Fault Parameter := do
  let specifiers ← specifiersIn r.children
  return { r.parameter with specifiers }

def parametersOf : Option Reading → Except Fault (List Parameter)
  | none => .ok []
  | some r => ((named r.children).filter fun c => Text.has c.type "parameter").mapM parameter

/-- The declarator of the next link of a chain, if there is one. -/
def innerDeclarator (children : List Reading) : Except Fault Declarator :=
  match field? "declarator" children with
  | some inner => .ok inner.declarator
  | none => firstOr noDeclarator (·.declarator)
      ((named children).filter fun c => c.head.isName || c.head.isDeclarator)

def declaratorOf (head : Head) (excerpt : Excerpt) (children : List Reading) :
    Except Fault Declarator :=
  if head.isName then .ok ⟨excerpt, some excerpt, false, none⟩
  else if head.type == "parenthesized_declarator" then do
    let inner ← firstOr noDeclarator (·.declarator) (named children)
    return ⟨excerpt, inner.name, true, inner.parameters⟩
  else do
    let inner ← innerDeclarator children
    if head.type == "function_declarator" && inner.parameters.isNone then
      let parameters ← parametersOf (field? "parameters" children)
      return ⟨excerpt, inner.name, inner.nested, some parameters⟩
    else return ⟨excerpt, inner.name, inner.nested, inner.parameters⟩

def declaration (excerpt : Excerpt) (children : List Reading) : Except Fault Declaration := do
  let specifiers ← specifiersIn children
  return { Reading.declaration excerpt children with specifiers }

def typeDefinition (excerpt : Excerpt) (children : List Reading) : Except Fault Declaration := do
  let specifiers ← specifiersIn children
  return { Reading.typeDefinition excerpt children with specifiers }

@[simp] theorem parameter_eq (r : Reading) : parameter r = .ok r.parameter := by
  rw [parameter, specifiersIn_eq]
  rfl

@[simp] theorem parametersOf_eq (list : Option Reading) :
    parametersOf list = .ok (Reading.parametersOf list) := by
  cases list with
  | none => rfl
  | some r => exact mapM_ok parameter_eq _

theorem innerDeclarator_eq (children : List Reading) :
    innerDeclarator children =
      .ok (((innerDeclarator? children).map (·.declarator)).getD noDeclarator) := by
  unfold innerDeclarator innerDeclarator?
  cases field? "declarator" children with
  | some inner => rfl
  | none => rw [firstOr_eq, List.head?_filter, Option.none_or]

theorem declaratorOf_eq (head : Head) (excerpt : Excerpt) (children : List Reading) :
    declaratorOf head excerpt children = .ok (Reading.declaratorOf head excerpt children) := by
  unfold declaratorOf Reading.declaratorOf
  split
  · rfl
  split
  · rw [firstOr_eq]
    rfl
  · rw [innerDeclarator_eq]
    simp only [bind, Except.bind, parametersOf_eq]
    split <;> rfl

@[simp] theorem declaration_eq (excerpt : Excerpt) (children : List Reading) :
    declaration excerpt children = .ok (Reading.declaration excerpt children) := by
  rw [declaration, specifiersIn_eq]
  rfl

@[simp] theorem typeDefinition_eq (excerpt : Excerpt) (children : List Reading) :
    typeDefinition excerpt children = .ok (Reading.typeDefinition excerpt children) := by
  rw [typeDefinition, specifiersIn_eq]
  rfl

/-! ## Containers -/

def ivar (visibility : Option String) (r : Reading) : Except Fault Ivar := do
  let inner := (named r.children).filter (·.head.isIvar)
  let target ← if (filling "type" r.children).isEmpty && inner.length == 1 then first inner
    else pure r
  let specifiers ← specifiersIn target.children
  return ⟨r.excerpt, specifiers, declaredNames target.children, visibility⟩

def ivars (visibility : Option String) : List Reading → Except Fault (List Ivar)
  | [] => .ok []
  | r :: rest =>
      if isVisibility r then ivars (some (visibilityText r)) rest
      else if !r.head.isIvar then ivars visibility rest
      else do
        let mark := (named r.children).find? (·.type == "visibility_specification")
        let visibility := (mark.map (some <| visibilityText ·)).getD visibility
        if mark.isSome && (named r.children).length == 1 then ivars visibility rest
        else
          let line ← ivar visibility r
          let lines ← ivars visibility rest
          return line :: lines

/-- One child of a container: only instance variables are read with accesses. -/
def containerStep (s : Container) (r : Reading) : Except Fault Container :=
  if r.type == "instance_variables" then do
    let ivars ← ivars none r.children
    return { s with ivars, inHeader := false }
  else .ok (s.step r)

def container (children : List Reading) : Except Fault Container :=
  children.foldlM containerStep {}

def interface (excerpt : Excerpt) (children : List Reading) : Except Fault Node := do
  let s ← container children
  if s.hasParens then
    return .categoryInterface excerpt s.name s.category s.protocols s.ivars s.members
  else return .classInterface excerpt s.name s.superclass s.protocols s.ivars s.members

def implementation (excerpt : Excerpt) (children : List Reading) : Except Fault Node := do
  let s ← container children
  return .classImplementation excerpt s.name s.superclass s.category s.ivars s.members

def protocol (excerpt : Excerpt) (names : List Excerpt) (children : List Reading) :
    Except Fault Node :=
  if hasType ";" children && !hasType "@end" children then .ok (forward excerpt names children)
  else do
    let s ← container children
    return .protocolDeclaration excerpt s.name s.protocols s.members

def property (excerpt : Excerpt) (children : List Reading) : Except Fault Node := do
  let isAttribute := fun (c : Reading) => Text.has c.type "attribute"
  let attributes := ((named children).filter isAttribute).flatMap fun c =>
    (named c.children).map (·.excerpt.text)
  let inner := ((named children).filter fun c => !isAttribute c && c.head.isIvar).getLast?
  let target := match inner with
    | some inner => inner.children
    | none => children
  let specifiers ← specifiersIn target
  return .propertyDeclaration excerpt attributes specifiers (declaredNames target)

@[simp] theorem ivar_eq (visibility : Option String) (r : Reading) :
    ivar visibility r = .ok (Reading.ivar visibility r) := by
  unfold ivar Reading.ivar
  by_cases hmarked : (filling "type" r.children).isEmpty
  · generalize (named r.children).filter (·.head.isIvar) = inner
    rcases inner with _ | ⟨only, _ | ⟨next, rest⟩⟩ <;>
      simp [hmarked, first, bind, Except.bind, pure, Except.pure]
  · simp [hmarked, bind, Except.bind, pure, Except.pure]

@[simp] theorem ivars_eq (visibility : Option String) (rs : List Reading) :
    ivars visibility rs = .ok (Reading.ivars visibility rs) := by
  induction rs generalizing visibility with
  | nil => rfl
  | cons r rest ih =>
      unfold ivars Reading.ivars
      simp only [ih, ivar_eq, bind, Except.bind, pure, Except.pure]
      cases (named r.children).find? (·.type == "visibility_specification") with
      | none => simp [apply_ite Except.ok]
      | some mark => simp [apply_ite Except.ok]

theorem containerStep_eq (s : Container) (r : Reading) : containerStep s r = .ok (s.step r) := by
  unfold containerStep
  split
  · next htype =>
    -- The type is none of those that are looked for before it.
    have htype : r.head.type = "instance_variables" := by simpa [type] using htype
    simp [Container.step, type, htype, Head.isName, Head.isProtocolList, nameTypes,
      protocolListTypes, bind, Except.bind, pure, Except.pure]
  · rfl

@[simp] theorem container_eq (children : List Reading) :
    container children = .ok (Reading.container children) := foldlM_ok containerStep_eq _ _

theorem interface_eq (excerpt : Excerpt) (children : List Reading) :
    interface excerpt children = .ok (Reading.interface excerpt children) := by
  unfold interface Reading.interface
  simp only [container_eq, bind, Except.bind]
  split <;> rfl

theorem implementation_eq (excerpt : Excerpt) (children : List Reading) :
    implementation excerpt children = .ok (Reading.implementation excerpt children) := by
  rw [implementation, container_eq]
  rfl

theorem protocol_eq (excerpt : Excerpt) (names : List Excerpt) (children : List Reading) :
    protocol excerpt names children = .ok (Reading.protocol excerpt names children) := by
  unfold protocol Reading.protocol
  split
  · rfl
  · rw [container_eq]
    rfl

theorem property_eq (excerpt : Excerpt) (children : List Reading) :
    property excerpt children = .ok (Reading.property excerpt children) := by
  unfold property
  simp only [specifiersIn_eq]
  rfl

/-! ## Statements and expressions -/

def loopHeader (excerpt : Excerpt) (children : List Reading) :
    Except Fault (Option Declaration × List Reading) :=
  match (field? "initializer" children).filter (·.type == "declaration") with
  | some r => (declaration r.excerpt r.children).map (some ·, [r])
  | none =>
      let marked := filling "declarator" children
      if !marked.isEmpty then
        (specifiersIn children).map fun specifiers =>
          (some ⟨excerpt, [], specifiers, marked.map bareDeclarator⟩,
            filling "type" children ++ marked)
      else if hasType "in" children then
        match inDeclaration? excerpt children with
        | some d => .ok (some d, inHeader children)
        | none => .ok (none, [])
      else match (named children).find? (·.type == "declaration") with
        | some r => (declaration r.excerpt r.children).map (some ·, [r])
        | none => .ok (none, [])

def loop (excerpt : Excerpt) (children : List Reading) : Except Fault Node := do
  let body := field? "body" children
  let (header, used) ← loopHeader excerpt children
  return .forStatement excerpt header (nodesExcept (body.toList ++ used) children)
    (body.bind (·.node))

def catchParameter (r : Reading) : Except Fault Parameter := do
  let specifiers ← specifiersIn r.children
  return { r.catchParameter with specifiers }

def catchClause (excerpt : Excerpt) (children : List Reading) : Except Fault Node := do
  let parameter ← ((named children).find? fun c =>
    c.type != "compound_statement" &&
      (Text.has c.type "parameter" || c.type == "type_name")).mapM catchParameter
  return .catchClause excerpt parameter ((lastBlock? children).bind (·.node))

def block (excerpt : Excerpt) (children : List Reading) : Except Fault Node := do
  let parameters ← parametersOf ((named children).filter (·.type == "parameter_list")).getLast?
  return .blockExpression excerpt parameters ((lastBlock? children).bind (·.node))

def cast (excerpt : Excerpt) (children : List Reading) : Except Fault Node := do
  let type ← (field? "type" children).mapM typeName
  return .castExpression excerpt type (fieldNode? "value" children)

def function (excerpt : Excerpt) (children : List Reading) : Except Fault Node := do
  let specifiers ← specifiersIn children
  return .functionDefinition excerpt specifiers
    ((field? "declarator" children).map (·.declarator)) (fieldNode? "body" children)

@[simp] theorem loopHeader_eq (excerpt : Excerpt) (children : List Reading) :
    loopHeader excerpt children = .ok (Reading.loopHeader excerpt children) := by
  unfold loopHeader Reading.loopHeader
  simp only [declaration_eq, specifiersIn_eq, Except.map]
  cases (field? "initializer" children).filter (·.type == "declaration") with
  | some r => rfl
  | none =>
      cases inDeclaration? excerpt children <;>
        cases (named children).find? (·.type == "declaration") <;> simp [apply_ite Except.ok]

theorem loop_eq (excerpt : Excerpt) (children : List Reading) :
    loop excerpt children = .ok (Reading.loop excerpt children) := by
  unfold loop
  simp only [loopHeader_eq]
  rfl

theorem catchParameter_eq (r : Reading) : catchParameter r = .ok r.catchParameter := by
  rw [catchParameter, specifiersIn_eq]
  rfl

theorem catchClause_eq (excerpt : Excerpt) (children : List Reading) :
    catchClause excerpt children = .ok (Reading.catchClause excerpt children) := by
  unfold catchClause Reading.catchClause
  rw [optionMapM_ok catchParameter_eq]
  rfl

theorem block_eq (excerpt : Excerpt) (children : List Reading) :
    block excerpt children = .ok (Reading.block excerpt children) := by
  rw [block, parametersOf_eq]
  rfl

theorem cast_eq (excerpt : Excerpt) (children : List Reading) :
    cast excerpt children = .ok (Reading.cast excerpt children) := by
  rw [cast, optionMapM_ok typeName_eq]
  rfl

theorem function_eq (excerpt : Excerpt) (children : List Reading) :
    function excerpt children = .ok (Reading.function excerpt children) := by
  rw [function, specifiersIn_eq]
  rfl

end Checked

end SymbolGraph
