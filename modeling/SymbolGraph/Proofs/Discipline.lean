import SymbolGraph.Proofs.Visit

/-!
# `Proofs.Discipline` — what a visit leaves as it was, on every way out

`Realizes p c as` says what it takes for the visit `p`, in the context `c`, to do what the
steps `as` do: it leaves the context and the scopes below the innermost one as they were,
and it either goes on where the walk of the steps goes on, or ends with the error at which
that walk halts.  It does not end in any other way.  There is one rule for each way in
which visits are put together, the three scopes share theirs (`Realizes.bracket`), and one
induction over all constructs (`Node.handles`) uses nothing but these rules.
-/

namespace SymbolGraph

open SymbolGraph.Action Visit

/-- The walk of some steps, from a state on. -/
def Host.walk (h : Host) (as : List Action) (v : Visitor) : Outcome Counts :=
  v.run.walk h.enter h.pass h.file as v.walker v.counts

/-- The context is the same, and so are the scopes below the innermost one. -/
structure Visitor.Restored (v v' : Visitor) : Prop where
  context : v'.context = v.context
  valid : v'.walker.scopes.Valid
  below : v'.walker.scopes.stack.tail = v.walker.scopes.stack.tail

/-- A visit that comes to an end goes on where the walk of the steps goes on; one that ends
early does so at an inclusion, at which the walk halts. -/
def Host.Agrees (h : Host) (as : List Action) (v : Visitor) : Option Stop × Visitor → Prop
  | (none, v') => ∀ rest, h.walk (as ++ rest) v = h.walk rest v'
  | (some (.read e), v') =>
      (∃ path run, .inclusion path ∈ as ∧ h.enter path run = .halted v'.run e) ∧
        ∀ rest, h.walk (as ++ rest) v = .halted v'.run e
  | (some (.skip ..), _) | (some (.scope _), _) => False

/-- In the context, the visit does what the steps do. -/
def Visit.Realizes (h : Host) (p : Visit) (c : Context) (as : List Action) : Prop :=
  ∀ v : Visitor, v.context = c → v.walker.scopes.Valid →
    v.Restored (p v).2 ∧ h.Agrees as v (p v)

namespace Visitor.Restored

variable {v v₁ v₂ : Visitor}

theorem refl (h : v.walker.scopes.Valid) : v.Restored v := ⟨rfl, h, rfl⟩

theorem trans (h : v.Restored v₁) (h' : v₁.Restored v₂) : v.Restored v₂ :=
  ⟨h'.context.trans h.context, h'.valid, h'.below.trans h.below⟩

theorem depth (hvalid : v.walker.scopes.Valid) (h : v.Restored v₁) :
    v₁.walker.scopes.depth = v.walker.scopes.depth := by
  have hbelow := congrArg List.length h.below
  have hpositive := hvalid.positive
  have hpositive₁ := h.valid.positive
  rw [List.length_tail, List.length_tail, Scopes.length_stack hvalid,
    Scopes.length_stack h.valid] at hbelow
  omega

end Visitor.Restored

namespace Visit.Realizes

variable {h : Host} {p q body : Visit} {c d : Context} {as bs : List Action}

/-! ## One rule for each way of putting visits together -/

theorem done : Realizes h done c [] := fun _ _ hvalid => ⟨.refl hvalid, fun _ => rfl⟩

theorem of_eq (hp : Realizes h p c as) (heq : as = bs) : Realizes h p c bs := heq ▸ hp

/-- Only the states of the context count. -/
theorem congr (hq : Realizes h q c as)
    (heq : ∀ v : Visitor, v.context = c → v.walker.scopes.Valid → p v = q v) :
    Realizes h p c as := by
  intro v hc hvalid
  rw [heq v hc hvalid]
  exact hq v hc hvalid

theorem asking {f : Context → Visit} (hf : Realizes h (f c) c as) :
    Realizes h (asking f) c as :=
  hf.congr fun v hc _ => by rw [Visit.asking, hc]

theorem andThen (hp : Realizes h p c as) (hq : Realizes h q c bs) :
    Realizes h (p.andThen q) c (as ++ bs) := by
  intro v hc hvalid
  obtain ⟨hkept, hagrees⟩ := hp v hc hvalid
  unfold Visit.andThen
  generalize p v = first at hkept hagrees
  obtain ⟨stop, v₁⟩ := first
  cases stop with
  | none =>
    obtain ⟨hkept', hagrees'⟩ := hq v₁ (hkept.context.trans hc) hkept.valid
    refine ⟨hkept.trans hkept', ?_⟩
    dsimp only
    generalize q v₁ = second at hkept' hagrees'
    obtain ⟨stop, v₂⟩ := second
    -- In front of the second visit, the walk has come as far as the first one.
    have hfirst : ∀ rest, h.walk (as ++ bs ++ rest) v = h.walk (bs ++ rest) v₁ := by
      intro rest
      rw [List.append_assoc]
      exact hagrees (bs ++ rest)
    match stop, hagrees' with
    | none, hagrees' => exact fun rest => (hfirst rest).trans (hagrees' rest)
    | some (.read e), ⟨⟨path, run, hmem, hhalt⟩, hagrees'⟩ =>
      exact ⟨⟨path, run, List.mem_append_right _ hmem, hhalt⟩,
        fun rest => (hfirst rest).trans (hagrees' rest)⟩
  | some stop =>
    refine ⟨hkept, ?_⟩
    match stop, hagrees with
    | .read e, ⟨⟨path, run, hmem, hhalt⟩, hagrees⟩ =>
      refine ⟨⟨path, run, List.mem_append_left _ hmem, hhalt⟩, fun rest => ?_⟩
      rw [List.append_assoc]
      exact hagrees (bs ++ rest)

theorem step {a : Action} (hflat : a.opens = false ∧ a.closes = false)
    (hinclusion : ∀ path, a ≠ .inclusion path) : Realizes h (step h a) c [a] := by
  intro v hc hvalid
  refine ⟨⟨rfl, Walker.moved_valid hvalid a, (Walker.Kept.step hflat v.walker hvalid).tail⟩, ?_⟩
  intro rest
  exact Run.walk_cons hinclusion rest v.walker v.counts v.run

end Visit.Realizes

/-- A step that opens and closes nothing and enters no other file. -/
def Action.isSimple : Action → Bool
  | .openClass | .openBlock | .openRoutine | .closeScope | .closeRoutine | .inclusion _ => false
  | _ => true

theorem Action.flat_of_isSimple {a : Action} (h : a.isSimple = true) :
    (a.opens = false ∧ a.closes = false) ∧ ∀ path, a ≠ .inclusion path := by
  cases a with
  | openClass | openBlock | openRoutine | closeScope | closeRoutine | inclusion => cases h
  | _ => exact ⟨⟨rfl, rfl⟩, fun _ => nofun⟩

namespace Visit.Realizes

variable {h : Host} {p q body : Visit} {c d : Context} {as bs : List Action}

theorem steps (hsimple : ∀ a ∈ as, a.isSimple = true) : Realizes h (steps h as) c as := by
  induction as with
  | nil => exact done
  | cons a as ih =>
    obtain ⟨ha, has⟩ := List.forall_mem_cons.mp hsimple
    obtain ⟨hflat, hinclusion⟩ := flat_of_isSimple ha
    exact (step hflat hinclusion).andThen (ih has)

theorem here {f : Context → List Action} (hsimple : ∀ a ∈ f c, a.isSimple = true) :
    Realizes h (here h f) c (f c) :=
  asking (steps hsimple)

theorem follow (path : String) : Realizes h (follow h path) c [.inclusion path] := by
  intro v hc hvalid
  unfold Visit.follow
  cases henter : h.enter path v.run with
  | done run value =>
    refine ⟨⟨rfl, hvalid, rfl⟩, fun rest => ?_⟩
    rw [Host.walk, List.singleton_append, Run.walk, henter]
    rfl
  | halted run e =>
    refine ⟨⟨rfl, hvalid, rfl⟩, ⟨path, v.run, List.mem_singleton.mpr rfl, henter⟩, fun rest => ?_⟩
    rw [Host.walk, List.singleton_append, Run.walk, henter]

/-! ## Scopes -/

/-- A body between two steps, in a context of its own. -/
def enclosed (first last : Action) (d : Context) (body : Visit) : Visit := fun v =>
  match body { v with context := d, walker := first.moved v.walker } with
  | (stop, u) => (stop, { u with context := v.context, walker := last.moved u.walker })

/-- Opening and closing a scope changes nothing but the walker. -/
theorem walk_scope {a : Action} (ha : a.opens = true ∨ a.closes = true) (rest : List Action)
    (v : Visitor) : h.walk (a :: rest) v = h.walk rest { v with walker := a.moved v.walker } := by
  cases a with
  | openClass | openBlock | openRoutine | closeScope | closeRoutine => rfl
  | _ => rcases ha with ha | ha <;> cases ha

theorem bracket {first last : Action} (hbody : Realizes h body d as) (hopens : first.opens = true)
    (hcloses : last.closes = true) :
    Realizes h (enclosed first last d body) c (first :: (as ++ [last])) := by
  intro v hc hvalid
  obtain ⟨hkept, hagrees⟩ := hbody { v with context := d, walker := first.moved v.walker } rfl
    (Walker.moved_valid hvalid first)
  have hopened : ∀ rest, h.walk (first :: (as ++ [last]) ++ rest) v =
      h.walk (as ++ last :: rest) { v with context := d, walker := first.moved v.walker } := by
    intro rest
    rw [List.cons_append, List.append_assoc, walk_scope (.inl hopens)]
    rfl
  unfold enclosed
  generalize body _ = result at hkept hagrees
  obtain ⟨stop, u⟩ := result
  obtain ⟨-, hstack⟩ := Walker.stack_of_bracket hvalid hkept.valid hopens hcloses hkept.below
  refine ⟨⟨rfl, Walker.moved_valid hkept.valid last, congrArg List.tail hstack⟩, ?_⟩
  match stop, hagrees with
  | none, hagrees =>
    intro rest
    rw [hopened, hagrees, walk_scope (.inr hcloses)]
    rfl
  | some (.read e), ⟨⟨path, run, hmem, hhalt⟩, hagrees⟩ =>
    have hmem' : .inclusion path ∈ first :: (as ++ [last]) :=
      List.mem_cons_of_mem _ (List.mem_append_left _ hmem)
    refine ⟨⟨path, run, hmem', hhalt⟩, fun rest => ?_⟩
    rw [hopened]
    exact hagrees (last :: rest)

/-- The scope that was opened is there to be closed. -/
theorem frame_eq (hbody : Realizes h body d as) {v : Visitor} (hd : v.context = d)
    (hvalid : v.walker.scopes.Valid) (counted : Bool) :
    frame counted body v =
      enclosed (if counted then .openBlock else .openClass) .closeScope d body v := by
  subst hd
  let first : Action := if counted then .openBlock else .openClass
  have hopens : first.opens = true := by cases counted <;> rfl
  have hpush : push counted v = (none, { v with walker := first.moved v.walker }) := by
    cases counted <;> rfl
  obtain ⟨hkept, -⟩ := hbody { v with walker := first.moved v.walker } rfl
    (Walker.moved_valid hvalid first)
  unfold Visit.frame enclosed Visit.andThen Visit.ensuring
  rw [hpush]
  dsimp only
  generalize body _ = result at hkept
  obtain ⟨stop, u⟩ := result
  have hcloses : closeScope.closes = true := rfl
  obtain ⟨hdeep, -⟩ := Walker.stack_of_bracket hvalid hkept.valid hopens hcloses hkept.below
  rw [Scopes.length_stack hkept.valid] at hdeep
  have hpop : pop u = (none, { u with walker := closeScope.moved u.walker }) := by
    have hnot : ¬ u.walker.scopes.depth ≤ 1 := Nat.not_le.mpr hdeep
    unfold Visit.pop
    simp only [Scopes.pop?, if_neg hnot]
    simp [Action.moved, perform, Scopes.pop, Scopes.pop?, if_neg hnot]
  have hcontext : u.context = v.context := hkept.context
  dsimp only
  rw [hpop, ← hcontext]

theorem frame (hbody : Realizes h body c as) :
    Realizes h (frame true body) c (.openBlock :: (as ++ [.closeScope])) :=
  (hbody.bracket rfl rfl).congr fun _ hc hvalid => hbody.frame_eq hc hvalid true

theorem inClass {name : String} (hbody : Realizes h body { c with className := name } as) :
    Realizes h (inClass name body) c (.openClass :: (as ++ [.closeScope])) := by
  have hbracket : Realizes h (enclosed .openClass .closeScope _ body) c _ := hbody.bracket rfl rfl
  refine hbracket.congr ?_
  rintro v rfl hvalid
  have hframe := hbody.frame_eq (v := { v with context.className := some name }) rfl hvalid false
  unfold Visit.inClass Visit.andThen Visit.assign Visit.ensuring
  dsimp only
  rw [hframe]
  rfl

theorem inRoutine {name : String} (hbody : Realizes h body { c with methodName := name } as) :
    Realizes h (inRoutine name body) c (.openRoutine :: (as ++ [.closeRoutine])) := by
  have hbracket : Realizes h (enclosed .openRoutine .closeRoutine _ body) c _ :=
    hbody.bracket rfl rfl
  refine hbracket.congr ?_
  rintro v rfl hvalid
  have hframe := hbody.frame_eq (v := { v with
    context.methodName := some name
    walker.block := 0
    walker.parameters := [] }) rfl hvalid false
  unfold Visit.inRoutine Visit.andThen Visit.assign Visit.ensuring
  dsimp only
  rw [hframe]
  rfl

end Visit.Realizes

/-! ## Skips -/

/-- The handler does what the steps do, or it leaves the construct out before it has done
anything. -/
def Visit.Handles (h : Host) (p : Visit) (c : Context) (as : List Action) : Prop :=
  p.Realizes h c as ∨ ∃ reason start, as = [.skip reason start] ∧
    ∀ v : Visitor, v.context = c → p v = (some (.skip reason start), v)

namespace Visit.Handles

variable {h : Host} {p : Visit} {c : Context} {as : List Action}

theorem raise (reason : SkipReason) (start : Int) :
    Handles h (raise (.skip reason start)) c [.skip reason start] :=
  .inr ⟨reason, start, rfl, fun _ _ => rfl⟩

/-- Outside a class, the construct is left out. -/
theorem withClass {reason : SkipReason} {start : Int} {f : String → Visit}
    (hsome : ∀ className, c.className = some className → Realizes h (f className) c as)
    (hnone : c.className = none → as = [.skip reason start]) :
    Handles h (withClass (.skip reason start) f) c as := by
  cases hclass : c.className with
  | none =>
    refine .inr ⟨reason, start, hnone hclass, fun v hc => ?_⟩
    simp only [Visit.withClass, Visit.asking, hc, hclass]
    rfl
  | some className =>
    refine .inl ((hsome className hclass).congr fun v hc _ => ?_)
    simp only [Visit.withClass, Visit.asking, hc, hclass]

/-- The visit of a construct never ends with a skip. -/
theorem rescue (hp : Handles h p c as) : Realizes h (rescue h p) c as := by
  rcases hp with hp | ⟨reason, start, rfl, hp⟩
  · refine hp.congr fun v hc hvalid => ?_
    obtain ⟨-, hagrees⟩ := hp v hc hvalid
    unfold Visit.rescue
    generalize p v = result at hagrees
    obtain ⟨stop, u⟩ := result
    match stop, hagrees with
    | none, _ => rfl
    | some (.read e), _ => rfl
  · have hskip : Realizes h (Visit.step h (.skip reason start)) c [.skip reason start] :=
      .step ⟨rfl, rfl⟩ fun _ => nofun
    refine hskip.congr fun v hc _ => ?_
    rw [Visit.rescue, hp v hc]

end Visit.Handles

/-! ## Every construct -/

namespace Action

variable {c : Context}

theorem isSimple_referNames (names : List Excerpt) :
    ∀ a ∈ names.map referName, a.isSimple = true := by
  simp [referName, isSimple]

theorem isSimple_declareVariable (ident owner : Excerpt) (type : Option String)
    (kind : Option Kind) : ∀ a ∈ declareVariable c ident owner type kind, a.isSimple = true := by
  unfold declareVariable
  split <;> simp [defineName, isSimple]

theorem isSimple_declareIvar (className : String) (ivar : Ivar) :
    ∀ a ∈ declareIvar className ivar, a.isSimple = true := by
  intro a ha
  obtain ⟨name, -, hmem⟩ := List.mem_flatMap.mp ha
  rcases List.mem_pair.mp hmem with rfl | rfl <;> rfl

theorem isSimple_declareBound (declarator : Option Declarator) (owner : Excerpt)
    (type : Option String) : ∀ a ∈ declareBound c declarator owner type, a.isSimple = true := by
  unfold declareBound
  split <;> simp [isSimple]

theorem isSimple_declareOne (d : Declaration) (ident : Excerpt) (declarator : Declarator) :
    ∀ a ∈ declareOne c d ident declarator, a.isSimple = true := by
  unfold declareOne
  dsimp only
  repeat' split
  all_goals first
    | exact isSimple_declareVariable _ _ _ _
    | simp [defineName, referName, isSimple]

theorem isSimple_readIdentifier (ident : Excerpt) :
    ∀ a ∈ readIdentifier c ident, a.isSimple = true := by
  unfold readIdentifier
  repeat' split
  all_goals simp [isSimple]

end Action

mutual

theorem Node.handles (h : Host) (c : Context) : ∀ n : Node, (n.handle h).Handles h c (n.actions c)
  | .unit _ items => by
      rw [Node.handle, Node.actions]
      exact .inl (Node.realizesAll h c items)
  | .inclusion _ path _ _ => by
      rw [Node.handle, Node.actions]
      split
      · exact .inl .done
      · exact .inl (.follow path)
  | .classInterface e none _ _ _ _ => by
      rw [Node.handle, Node.actions]
      exact .raise _ _
  | .classInterface e (some name) superclass protocols ivars members => by
      have body := (Ivar.realizesAll h { c with className := name.text } name.text ivars).andThen
        (Node.realizesAll h { c with className := name.text } members)
      rw [Node.handle]
      refine .inl ((Realizes.andThen (.steps ?_) body.inClass).of_eq ?_)
      · simp [defineName, referName, isSimple, or_imp, forall_and]
      · simp only [Node.actions, List.append_assoc, List.cons_append]
  | .categoryInterface e none _ _ _ _ => by
      rw [Node.handle, Node.actions]
      exact .raise _ _
  | .categoryInterface e (some name) category protocols ivars members => by
      have body := (Ivar.realizesAll h { c with className := name.text } name.text ivars).andThen
        (Node.realizesAll h { c with className := name.text } members)
      rw [Node.handle]
      refine .inl ((Realizes.andThen (.steps ?_) body.inClass).of_eq ?_)
      · cases category <;> simp [defineName, referName, isSimple, or_imp, forall_and]
      · simp only [Node.actions, List.append_assoc, List.cons_append]
  | .classImplementation e none _ _ _ _ => by
      rw [Node.handle, Node.actions]
      exact .raise _ _
  | .classImplementation _ (some name) superclass category ivars members => by
      have body := (Ivar.realizesAll h { c with className := name.text } name.text ivars).andThen
        (Node.realizesAll h { c with className := name.text } members)
      rw [Node.handle]
      refine .inl ((Realizes.andThen (.steps ?_) body.inClass).of_eq ?_)
      · simp [referName, isSimple, or_imp, forall_and]
      · simp only [Node.actions, List.append_assoc, List.cons_append]
  | .protocolDeclaration e none _ _ => by
      rw [Node.handle, Node.actions]
      exact .raise _ _
  | .protocolDeclaration e (some name) protocols members => by
      have body := Node.realizesAll h { c with className := name.text } members
      rw [Node.handle]
      refine .inl ((Realizes.andThen (.steps ?_) body.inClass).of_eq ?_)
      · simp [defineName, referName, isSimple, or_imp, forall_and]
      · simp only [Node.actions, List.append_assoc, List.cons_append]
  | .forwardDeclaration _ names _ => by
      rw [Node.handle, Node.actions]
      exact .inl (.steps (isSimple_referNames names))
  | .methodDeclaration e _ returnType none => by
      rw [Node.handle, Node.actions_methodDeclaration_outside (.inr rfl)]
      exact .raise _ _
  | .methodDeclaration e _ returnType (some ⟨excerpt, unary, keywords⟩) => by
      have types := (TypeName.realizesOption h c returnType).andThen
        (KeywordDeclarator.resolvesAll h c keywords)
      rw [Node.handle]
      refine .withClass (fun className hclass => ?_) fun hclass =>
        Node.actions_methodDeclaration_outside (.inl hclass) _ _ _
      rw [Node.actions_methodDeclaration hclass]
      exact .andThen (.steps (by simp [isSimple])) types
  | .methodDefinition e _ returnType none body => by
      rw [Node.handle, Node.actions_methodDefinition_outside (.inr rfl)]
      exact .raise _ _
  | .methodDefinition e _ returnType (some ⟨excerpt, unary, keywords⟩) body => by
      let s : Selector := ⟨excerpt, unary, keywords⟩
      let inner : Context := { c with methodName := s.name }
      rw [Node.handle]
      refine .withClass (fun className hclass => ?_) fun hclass =>
        Node.actions_methodDefinition_outside (.inl hclass) _ _ _ _
      have inside := (TypeName.realizesOption h inner returnType).andThen
        ((KeywordDeclarator.realizesAll h inner (.member className s.name) keywords).andThen
          (Node.realizesOption h inner body))
      refine (Realizes.andThen (.steps (by simp [isSimple])) inside.inRoutine).of_eq ?_
      rw [Node.actions_methodDefinition hclass]
      simp [s, inner]
  | .propertyDeclaration e _ specifiers names => by
      rw [Node.handle, Node.actions]
      refine .withClass (fun className hclass => ?_) fun hclass => by rw [hclass]
      rw [hclass]
      refine (Specifier.realizesAll h c specifiers).andThen (.steps fun a ha => ?_)
      obtain ⟨name, -, hmem⟩ := List.mem_flatMap.mp ha
      rcases List.mem_pair.mp hmem with rfl | rfl <;> rfl
  | .declaration d => by
      rw [Node.handle, Node.actions]
      exact .inl (Declaration.realizes h c d)
  | .functionDefinition e specifiers none body
  | .functionDefinition e specifiers (some ⟨_, none, _, _⟩) body => by
      rw [Node.handle.eq_def, Node.actions.eq_def]
      exact .raise _ _
  | .functionDefinition e specifiers (some ⟨_, some name, _, parameters⟩) body => by
      let inner : Context := { c with methodName := name.text }
      have inside := (Parameter.realizesOption h inner parameters).andThen
        (Node.realizesOption h inner body)
      have behind := (Specifier.realizesAll h c specifiers).andThen inside.inRoutine
      rw [Node.handle]
      refine .inl ((Realizes.andThen (.steps (by simp [defineName, isSimple])) behind).of_eq ?_)
      simp only [Node.actions, List.append_assoc, List.cons_append, List.nil_append, inner]
  | .compoundStatement _ items => by
      rw [Node.handle, Node.actions]
      exact .inl (Node.realizesAll h c items).frame
  | .forStatement _ header parts body => by
      have inside := (Declaration.realizesLocals h c header).andThen
        ((Node.realizesAll h c parts).andThen (Node.realizesOption h c body))
      rw [Node.handle, Node.actions]
      exact .inl (inside.frame.of_eq (by simp))
  | .catchClause _ parameter body => by
      rw [Node.handle, Node.actions]
      exact .inl ((Parameter.realizesLocalOption h c parameter).andThen
        (Node.realizesOption h c body)).frame
  | .blockExpression _ parameters body => by
      rw [Node.handle, Node.actions]
      exact .inl ((Parameter.realizesLocals h c parameters).andThen
        (Node.realizesOption h c body)).frame
  | .identifier e name => by
      rw [Node.handle, Node.actions]
      exact .inl (.here (isSimple_readIdentifier _))
  | .memberAccess _ receiver member _ => by
      by_cases hident : ∃ e name, receiver = some (.identifier e name)
      · obtain ⟨e, name, rfl⟩ := hident
        rw [Node.handle, Node.actions.eq_def]
        refine .inl (.here ?_)
        split
        · split
          · split <;> simp [isSimple]
          · exact List.forall_mem_nil _
        · exact List.forall_mem_append.mpr ⟨isSimple_readIdentifier _, by simp [isSimple]⟩
      · have hother : ∀ e name, receiver ≠ some (.identifier e name) := fun e name heq =>
          hident ⟨e, name, heq⟩
        rw [Node.handle, Node.actions_memberAccess hother]
        · exact .inl (Node.realizesOption h c receiver)
        · exact hother
  | .messageExpression _ receiver selector => by
      have behind := (Node.realizesOption h c receiver).andThen
        (MessageSelector.realizesOption h c selector)
      rw [Node.handle.eq_def, Node.actions.eq_def]
      dsimp only
      rw [List.append_assoc]
      refine .inl (Realizes.andThen (.asking (.steps ?_)) behind)
      split <;> simp [isSimple]
  | .castExpression _ typeName operand => by
      rw [Node.handle, Node.actions]
      exact .inl ((TypeName.realizesOption h c typeName).andThen (Node.realizesOption h c operand))
  | .generic _ _ children => by
      rw [Node.handle, Node.actions]
      exact .inl (Node.realizesAll h c children)

theorem Node.realizesAll (h : Host) (c : Context) :
    ∀ ns : List Node, (Node.visitAll h ns).Realizes h c (Node.actionsOfAll c ns)
  | [] => by
      rw [Node.visitAll, Node.actionsOfAll]
      exact .done
  | n :: rest => by
      rw [Node.visitAll, Node.actionsOfAll]
      exact (Node.handles h c n).rescue.andThen (Node.realizesAll h c rest)

theorem Node.realizesOption (h : Host) (c : Context) :
    ∀ n : Option Node, (Node.visitOption h n).Realizes h c (Node.actionsOfOption c n)
  | none => by
      rw [Node.visitOption, Node.actionsOfOption]
      exact .done
  | some n => by
      rw [Node.visitOption, Node.actionsOfOption]
      exact (Node.handles h c n).rescue

theorem Specifier.realizes (h : Host) (c : Context) :
    ∀ s : Specifier, (s.resolve h).Realizes h c (s.actions c)
  | .enum _ enumeration protocols => by
      rw [Specifier.resolve, Specifier.actions]
      exact .andThen (.steps (isSimple_referNames protocols))
        (Enumeration.realizesOption h c enumeration)
  | .named _ name protocols | .struct _ name protocols => by
      rw [Specifier.resolve, Specifier.actions]
      refine .steps (List.forall_mem_append.mpr ⟨isSimple_referNames protocols, ?_⟩)
      cases name with
      | none => exact List.forall_mem_nil _
      | some n =>
          simp only [Option.toList_some, List.flatMap_singleton]
          split <;> simp [referName, isSimple]
  | .primitive e protocols => by
      rw [Specifier.resolve, Specifier.actions]
      refine .steps (List.forall_mem_append.mpr ⟨isSimple_referNames protocols, ?_⟩)
      split <;> simp [referName, isSimple]
  | .other _ protocols => by
      rw [Specifier.resolve, Specifier.actions]
      exact .steps (isSimple_referNames protocols)

theorem Specifier.realizesAll (h : Host) (c : Context) :
    ∀ ss : List Specifier, (Specifier.resolveAll h ss).Realizes h c (Specifier.actionsOfAll c ss)
  | [] => by
      rw [Specifier.resolveAll, Specifier.actionsOfAll]
      exact .done
  | s :: rest => by
      rw [Specifier.resolveAll, Specifier.actionsOfAll]
      exact (Specifier.realizes h c s).andThen (Specifier.realizesAll h c rest)

theorem Enumeration.realizes (h : Host) (c : Context) :
    ∀ e : Enumeration, (e.define h).Realizes h c (e.actions c)
  | ⟨e, name, underlying, constants⟩ => by
      rw [Enumeration.define.eq_def, Enumeration.actions.eq_def]
      dsimp only
      rw [List.append_assoc]
      refine (TypeName.realizesOption h c underlying).andThen
        (.andThen (.steps ?_) (Enumerator.realizesAll h c _ constants))
      cases name <;> cases constants <;> simp [referName, defineName, isSimple]

theorem Enumeration.realizesOption (h : Host) (c : Context) : ∀ e : Option Enumeration,
    (Enumeration.defineOption h e).Realizes h c (Enumeration.actionsOfOption c e)
  | none => by
      rw [Enumeration.defineOption, Enumeration.actionsOfOption]
      exact .done
  | some e => by
      rw [Enumeration.defineOption, Enumeration.actionsOfOption]
      exact Enumeration.realizes h c e

theorem Enumerator.realizesAll (h : Host) (c : Context) (type : String) : ∀ es : List Enumerator,
    (Enumerator.declareAll h type es).Realizes h c (Enumerator.actionsOfAll c type es)
  | [] => by
      rw [Enumerator.declareAll, Enumerator.actionsOfAll]
      exact .done
  | ⟨_, none, _⟩ :: rest => by
      rw [Enumerator.declareAll, Enumerator.actionsOfAll]
      exact Enumerator.realizesAll h c type rest
  | ⟨e, some name, value⟩ :: rest => by
      rw [Enumerator.declareAll, Enumerator.actionsOfAll, List.append_assoc]
      exact .andThen (.here (isSimple_declareVariable _ _ _ _))
        ((Node.realizesOption h c value).andThen (Enumerator.realizesAll h c type rest))

theorem TypeName.realizesOption (h : Host) (c : Context) : ∀ t : Option TypeName,
    (TypeName.resolveOption h t).Realizes h c (TypeName.actionsOfOption c t)
  | none => by
      rw [TypeName.resolveOption, TypeName.actionsOfOption]
      exact .done
  | some ⟨_, specifiers⟩ => by
      rw [TypeName.resolveOption, TypeName.actionsOfOption]
      exact Specifier.realizesAll h c specifiers

theorem Declaration.realizes (h : Host) (c : Context) :
    ∀ d : Declaration, (d.handle h).Realizes h c (d.actions c)
  | ⟨e, storage, specifiers, declarators⟩ => by
      rw [Declaration.handle, Declaration.actions]
      exact (Specifier.realizesAll h c specifiers).andThen
        (InitDeclarator.realizesAll h c _ declarators)

theorem InitDeclarator.realizesAll (h : Host) (c : Context) (d : Declaration) :
    ∀ ds : List InitDeclarator,
      (InitDeclarator.declareAll h d ds).Realizes h c (InitDeclarator.actionsOfAll c d ds)
  | [] => by
      rw [InitDeclarator.declareAll, InitDeclarator.actionsOfAll]
      exact .done
  | ⟨_, declarator, value⟩ :: rest => by
      rw [InitDeclarator.declareAll.eq_def, InitDeclarator.actionsOfAll.eq_def]
      dsimp only
      rw [List.append_assoc]
      refine .andThen ?_
        ((Node.realizesOption h c value).andThen (InitDeclarator.realizesAll h c d rest))
      match declarator with
      | none | some ⟨_, none, _, _⟩ => exact .done
      | some ⟨e, some ident, nested, parameters⟩ =>
          refine .andThen (.asking (.steps (isSimple_declareOne _ _ _))) ?_
          split
          · exact Parameter.resolvesOption h c parameters
          · exact .done

theorem Declaration.realizesLocals (h : Host) (c : Context) : ∀ d : Option Declaration,
    (Declaration.declareLocals h d).Realizes h c (Declaration.localActionsOfOption c d)
  | none => by
      rw [Declaration.declareLocals, Declaration.localActionsOfOption]
      exact .done
  | some ⟨e, _, specifiers, declarators⟩ => by
      rw [Declaration.declareLocals, Declaration.localActionsOfOption]
      exact (Specifier.realizesAll h c specifiers).andThen
        (InitDeclarator.realizesLocals h c _ _ declarators)

theorem InitDeclarator.realizesLocals (h : Host) (c : Context) (owner : Excerpt)
    (type : Option String) : ∀ ds : List InitDeclarator,
      (InitDeclarator.declareLocals h owner type ds).Realizes h c
        (InitDeclarator.localActionsOfAll c owner type ds)
  | [] => by
      rw [InitDeclarator.declareLocals, InitDeclarator.localActionsOfAll]
      exact .done
  | ⟨_, declarator, value⟩ :: rest => by
      rw [InitDeclarator.declareLocals, InitDeclarator.localActionsOfAll, List.append_assoc]
      exact .andThen (.here (isSimple_declareBound _ _ _))
        ((Node.realizesOption h c value).andThen
          (InitDeclarator.realizesLocals h c owner type rest))

theorem Parameter.realizesAll (h : Host) (c : Context) : ∀ ps : List Parameter,
    (Parameter.declareAll h ps).Realizes h c (Parameter.actionsOfAll c ps)
  | [] => by
      rw [Parameter.declareAll, Parameter.actionsOfAll]
      exact .done
  | ⟨e, specifiers, declarator⟩ :: rest => by
      rw [Parameter.declareAll, Parameter.actionsOfAll.eq_def]
      dsimp only
      rw [List.append_assoc]
      refine (Specifier.realizesAll h c specifiers).andThen
        (.andThen (.here ?_) (Parameter.realizesAll h c rest))
      split <;> simp [defineName, isSimple]

theorem Parameter.realizesOption (h : Host) (c : Context) : ∀ ps : Option (List Parameter),
    (Parameter.declareOption h ps).Realizes h c (Parameter.actionsOfOption c ps)
  | none => by
      rw [Parameter.declareOption, Parameter.actionsOfOption]
      exact .done
  | some parameters => by
      rw [Parameter.declareOption, Parameter.actionsOfOption]
      exact Parameter.realizesAll h c parameters

theorem Parameter.realizesLocal (h : Host) (c : Context) :
    ∀ p : Parameter, (p.declareLocal h).Realizes h c (p.localActions c)
  | ⟨e, specifiers, declarator⟩ => by
      rw [Parameter.declareLocal, Parameter.localActions]
      exact (Specifier.realizesAll h c specifiers).andThen (.here (isSimple_declareBound _ _ _))

theorem Parameter.realizesLocals (h : Host) (c : Context) : ∀ ps : List Parameter,
    (Parameter.declareLocals h ps).Realizes h c (Parameter.localActionsOfAll c ps)
  | [] => by
      rw [Parameter.declareLocals, Parameter.localActionsOfAll]
      exact .done
  | p :: rest => by
      rw [Parameter.declareLocals, Parameter.localActionsOfAll]
      exact (Parameter.realizesLocal h c p).andThen (Parameter.realizesLocals h c rest)

theorem Parameter.realizesLocalOption (h : Host) (c : Context) : ∀ p : Option Parameter,
    (Parameter.declareLocalOption h p).Realizes h c (Parameter.localActionsOfOption c p)
  | none => by
      rw [Parameter.declareLocalOption, Parameter.localActionsOfOption]
      exact .done
  | some p => by
      rw [Parameter.declareLocalOption, Parameter.localActionsOfOption]
      exact Parameter.realizesLocal h c p

theorem Parameter.resolvesAll (h : Host) (c : Context) : ∀ ps : List Parameter,
    (Parameter.resolveAll h ps).Realizes h c (Parameter.specifierActionsOfAll c ps)
  | [] => by
      rw [Parameter.resolveAll, Parameter.specifierActionsOfAll]
      exact .done
  | ⟨_, specifiers, _⟩ :: rest => by
      rw [Parameter.resolveAll, Parameter.specifierActionsOfAll]
      exact (Specifier.realizesAll h c specifiers).andThen (Parameter.resolvesAll h c rest)

theorem Parameter.resolvesOption (h : Host) (c : Context) : ∀ ps : Option (List Parameter),
    (Parameter.resolveOption h ps).Realizes h c (Parameter.specifierActionsOfOption c ps)
  | none => by
      rw [Parameter.resolveOption, Parameter.specifierActionsOfOption]
      exact .done
  | some parameters => by
      rw [Parameter.resolveOption, Parameter.specifierActionsOfOption]
      exact Parameter.resolvesAll h c parameters

theorem Ivar.realizesAll (h : Host) (c : Context) (className : String) : ∀ ivars : List Ivar,
    (Ivar.declareAll h className ivars).Realizes h c (Ivar.actionsOfAll c className ivars)
  | [] => by
      rw [Ivar.declareAll, Ivar.actionsOfAll]
      exact .done
  | ⟨e, specifiers, names, visibility⟩ :: rest => by
      rw [Ivar.declareAll, Ivar.actionsOfAll, List.append_assoc]
      exact (Specifier.realizesAll h c specifiers).andThen
        (.andThen (.steps (isSimple_declareIvar _ _)) (Ivar.realizesAll h c className rest))

theorem KeywordDeclarator.resolvesAll (h : Host) (c : Context) : ∀ ks : List KeywordDeclarator,
    (KeywordDeclarator.resolveAll h ks).Realizes h c (KeywordDeclarator.typeActions c ks)
  | [] => by
      rw [KeywordDeclarator.resolveAll, KeywordDeclarator.typeActions]
      exact .done
  | ⟨_, _, typeName, _⟩ :: rest => by
      rw [KeywordDeclarator.resolveAll, KeywordDeclarator.typeActions]
      exact (TypeName.realizesOption h c typeName).andThen (KeywordDeclarator.resolvesAll h c rest)

theorem KeywordDeclarator.realizesAll (h : Host) (c : Context) (method : Key) :
    ∀ ks : List KeywordDeclarator, (KeywordDeclarator.declareAll h method ks).Realizes h c
      (KeywordDeclarator.actionsOfAll c method ks)
  | [] => by
      rw [KeywordDeclarator.declareAll, KeywordDeclarator.actionsOfAll]
      exact .done
  | ⟨e, _, typeName, name⟩ :: rest => by
      rw [KeywordDeclarator.declareAll.eq_def, KeywordDeclarator.actionsOfAll.eq_def]
      dsimp only
      rw [List.append_assoc]
      refine (TypeName.realizesOption h c typeName).andThen
        (.andThen (.steps ?_) (KeywordDeclarator.realizesAll h c method rest))
      cases name <;> simp [defineName, isSimple]

theorem MessageSelector.realizesOption (h : Host) (c : Context) : ∀ s : Option MessageSelector,
    (MessageSelector.visitOption h s).Realizes h c (MessageSelector.actionsOfOption c s)
  | none => by
      rw [MessageSelector.visitOption, MessageSelector.actionsOfOption]
      exact .done
  | some ⟨_, _, keywords⟩ => by
      rw [MessageSelector.visitOption, MessageSelector.actionsOfOption]
      exact KeywordArgument.realizesAll h c keywords

theorem KeywordArgument.realizesAll (h : Host) (c : Context) : ∀ ks : List KeywordArgument,
    (KeywordArgument.visitAll h ks).Realizes h c (KeywordArgument.actionsOfAll c ks)
  | [] => by
      rw [KeywordArgument.visitAll, KeywordArgument.actionsOfAll]
      exact .done
  | ⟨_, _, argument⟩ :: rest => by
      rw [KeywordArgument.visitAll, KeywordArgument.actionsOfAll]
      exact (Node.realizesOption h c argument).andThen (KeywordArgument.realizesAll h c rest)

end

/-! ## Every visit -/

/-- A handler that ends with a skip has done nothing; the visit notes the skip, and that
is all that changes. -/
theorem Node.visit_of_skip (h : Host) (n : Node) {v : Visitor} (hvalid : v.walker.scopes.Valid)
    {reason : SkipReason} {start : Int} (hskip : (n.handle h v).1 = some (.skip reason start)) :
    n.visit h v = (none, { v with
      counts.skipped := v.counts.skipped + 1
      run := v.run.logAll [.skipped h.file reason.construct start reason.message] }) := by
  rcases Node.handles h v.context n with hrealizes | ⟨reason', start', -, hraises⟩
  · obtain ⟨-, hagrees⟩ := hrealizes v rfl hvalid
    generalize n.handle h v = result at hskip hagrees
    obtain ⟨stop, u⟩ := result
    obtain rfl : stop = some (.skip reason start) := hskip
    exact hagrees.elim
  · rw [hraises v rfl] at hskip
    cases hskip
    rw [Node.visit, Visit.rescue, hraises v rfl]
    rfl

/-- From every state of a walk, in every context, the visit of a construct comes to an end
where the walk of its steps does, or it ends with the error of a file that is included inside
and cannot be read, where that walk halts, and in no other way.  Either way the class and
the method, the depth and the scopes below the innermost one are as they were.  If the
handler of the construct itself ends with a skip, everything is as it was, but for the
skip that is counted and noted in the log. -/
theorem Node.visit_keeps_discipline (h : Host) (n : Node) (c : Context) (front : List Action)
    (counts : Counts) (run : Run) :
    let v : Visitor := ⟨c, ({} : Walker).after front, counts, run⟩
    let stop := (n.visit h v).1
    let v' := (n.visit h v).2
    (v'.context = c ∧ v'.walker.scopes.depth = v.walker.scopes.depth ∧
      v'.walker.scopes.stack.tail = v.walker.scopes.stack.tail) ∧
    ((stop = none ∧ ∀ rest, h.walk (n.actions c ++ rest) v = h.walk rest v') ∨
      ∃ e, stop = some (.read e) ∧
        (∃ d m path run', Node.Holds c n d m ∧ m.isInclusion ∧ .inclusion path ∈ n.actions c ∧
          h.enter path run' = .halted v'.run e) ∧
        ∀ rest, h.walk (n.actions c ++ rest) v = .halted v'.run e) ∧
    ∀ reason start, (n.handle h v).1 = some (.skip reason start) →
      stop = none ∧ v' = { v with
        counts.skipped := counts.skipped + 1
        run := run.logAll [.skipped h.file reason.construct start reason.message] } := by
  intro v
  have hvalid : v.walker.scopes.Valid := Walker.after_valid Scopes.initial_valid front
  obtain ⟨hkept, hagrees⟩ := (Node.handles h c n).rescue v rfl hvalid
  refine ⟨⟨hkept.context, hkept.depth hvalid, hkept.below⟩, ?_, fun reason start hskip => ?_⟩
  · change h.Agrees (n.actions c) v (n.visit h v) at hagrees
    generalize n.visit h v = result at hagrees
    obtain ⟨stop, v'⟩ := result
    match stop, hagrees with
    | none, hagrees => exact .inl ⟨rfl, hagrees⟩
    | some (.read e), ⟨⟨path, run', hmem, hhalt⟩, hagrees⟩ =>
      obtain ⟨d, m, hholds, hsource⟩ := Node.stemsFrom c n _ hmem
      exact .inr ⟨e, rfl, ⟨d, m, path, run', hholds, hsource, hmem, hhalt⟩, hagrees⟩
  · rw [Node.visit_of_skip h n hvalid hskip]
    exact ⟨rfl, rfl⟩

/-! A file that is included in a block of a method of a class, and cannot be read:

    @implementation A - m { #import "b.h" } @end
-/

def Host.unreadable : Host := ⟨fun path run => .halted run ⟨path, "gone"⟩, .emitting, "a.m"⟩

def Node.includingDeep : Node :=
  .classImplementation {} (some ⟨"A", 0, 0⟩) none none []
    [.methodDefinition {} false none (some ⟨⟨"m", 0, 0⟩, some ⟨"m", 0, 0⟩, []⟩)
      (some (.compoundStatement {} [.inclusion {} "b.h" false "#import"]))]

example : (Node.includingDeep.visit .unreadable {}).1 = some (.read ⟨"b.h", "gone"⟩) ∧
    (Node.includingDeep.visit .unreadable {}).2.context = {} ∧
    (Node.includingDeep.visit .unreadable {}).2.walker.scopes.depth = 1 := by
  decide +kernel

end SymbolGraph
