import SymbolGraph.Proofs.Lexical
import SymbolGraph.Proofs.Nameless
import SymbolGraph.Proofs.Origin
import SymbolGraph.Proofs.Recursion
import SymbolGraph.Proofs.Tables

/-!
# `Proofs.Frames` — what a block and a nested definition leave as it was

The steps of a tree write to the innermost of the open scopes and to none below it
(`Script.kept`): what they open, they close.  So a bracket of steps, with a scope of its
own, leaves the stack of scopes EXACTLY as it was (`Walker.Kept.stack_bracket`).

What a name means hangs on three more things: the parameters, the cell of the class and
the cell of the global variables.  The steps of a block write the cells of what it
enters into the tables, and the parameters only for a definition inside it.  A definition
ends with no parameters at all, those of the definition around it included.
-/

namespace SymbolGraph

open SymbolGraph.Action

/-! ## The open scopes -/

namespace Walker

variable {w : Walker} {a first last : Action}

theorem scopes_of_opens (h : a.opens = true) : (a.moved w).scopes = w.scopes.push := by
  cases a with
  | openClass | openBlock | openRoutine => rfl
  | _ => cases h

theorem scopes_of_closes (h : a.closes = true) : (a.moved w).scopes = w.scopes.pop := by
  cases a with
  | closeScope | closeRoutine => rfl
  | _ => cases h

theorem stack_ne_nil (h : w.scopes.Valid) : w.scopes.stack ≠ [] := by
  intro hnil
  have hlength := Scopes.length_stack h
  have hpositive := h.positive
  rw [hnil, List.length_nil] at hlength
  omega

/-- From the one state to the other, no scope below the innermost has changed, and a name
that none of the steps declares is found as it was. -/
structure Keeps (steps : List Action) (w w' : Walker) : Prop where
  tail : w'.scopes.stack.tail = w.scopes.stack.tail
  found : ∀ name, (∀ a ∈ steps, a.declares name = false) →
    w'.scopes.lookup name = w.scopes.lookup name

theorem Keeps.refl (steps : List Action) (w : Walker) : Keeps steps w w := ⟨rfl, fun _ _ => rfl⟩

theorem Keeps.append {as bs : List Action} {w₁ w₂ w₃ : Walker} (h : Keeps as w₁ w₂)
    (h' : Keeps bs w₂ w₃) : Keeps (as ++ bs) w₁ w₃ where
  tail := h'.tail.trans h.tail
  found := by
    intro name hname
    obtain ⟨has, hbs⟩ := List.forall_mem_append.mp hname
    exact (h'.found name hbs).trans (h.found name has)

/-- States with the same open scopes differ in no name that a scope declares. -/
theorem Keeps.of_stack {w' : Walker} (h : w.scopes.Valid) (h' : w'.scopes.Valid)
    (hstack : w'.scopes.stack = w.scopes.stack) (steps : List Action) : Keeps steps w w' where
  tail := by rw [hstack]
  found := by
    intro name _
    rw [Scopes.lookup_eq h', Scopes.lookup_eq h, hstack]

/-- From every state, the steps keep what is below the innermost scope. -/
def Kept (steps : List Action) : Prop :=
  ∀ w : Walker, w.scopes.Valid → Keeps steps w (w.after steps)

theorem Kept.append {as bs : List Action} (ha : Kept as) (hb : Kept bs) : Kept (as ++ bs) := by
  intro w hvalid
  rw [after_append]
  exact (ha w hvalid).append (hb (w.after as) (after_valid hvalid as))

/-- A step that opens and closes nothing writes to the innermost scope at most. -/
theorem Kept.step (h : a.opens = false ∧ a.closes = false) : Kept [a] := by
  intro w hvalid
  obtain ⟨hopens, -⟩ | ⟨-, hcloses, -⟩ | ⟨c, ident, owner, kind, type, rfl, hmoved⟩ |
    ⟨-, -, hmoved⟩ := scopes_moved a w
  · rw [h.1] at hopens
    cases hopens
  · rw [h.2] at hcloses
    cases hcloses
  · obtain ⟨top, rest, hstack, hdeclared⟩ := Scopes.stack_declare hvalid
      ⟨ident.text, type, (c.key ident.text).inBlock w.block⟩
    have hafter : (w.after [.declareLocal c ident owner kind type]).scopes.stack = _ :=
      (congrArg Scopes.stack hmoved).trans hdeclared
    refine ⟨by rw [hafter, hstack]; rfl, fun name hname => ?_⟩
    have hother : ident.text ≠ name := by
      simpa [declares, local?] using hname _ (List.mem_singleton.mpr rfl)
    rw [Scopes.lookup_eq (after_valid hvalid _), Scopes.lookup_eq hvalid, hafter, hstack,
      List.findSome?_cons, List.findSome?_cons, Dict.get?_set, if_neg hother]
  · have hafter : (w.after [a]).scopes.stack = w.scopes.stack := congrArg Scopes.stack hmoved
    exact .of_stack hvalid (after_valid hvalid _) hafter [a]

/-- Behind the opening of a scope and whatever keeps the scopes below it, the scope can be
closed, and all scopes are as they were. -/
theorem stack_of_bracket {u : Walker} (h : w.scopes.Valid) (hu : u.scopes.Valid)
    (hopens : first.opens = true) (hcloses : last.closes = true)
    (htail : u.scopes.stack.tail = (first.moved w).scopes.stack.tail) :
    1 < u.scopes.stack.length ∧ (last.moved u).scopes.stack = w.scopes.stack := by
  have hbelow : u.scopes.stack.tail = w.scopes.stack := by
    rw [htail, scopes_of_opens hopens, Scopes.stack_push h]
    rfl
  have hdeep : 1 < u.scopes.stack.length := by
    have hlength := List.length_tail (l := u.scopes.stack)
    have hpositive := List.length_pos_iff.mpr (stack_ne_nil h)
    rw [hbelow] at hlength
    omega
  exact ⟨hdeep, by rw [scopes_of_closes hcloses, Scopes.stack_pop hu hdeep, hbelow]⟩

/-- A bracket around such steps leaves all scopes as they were. -/
theorem Kept.stack_bracket {body : List Action} (hbody : Kept body) (h : w.scopes.Valid)
    (hopens : first.opens = true) (hcloses : last.closes = true) :
    (w.after (first :: (body ++ [last]))).scopes.stack = w.scopes.stack := by
  have hvalid := moved_valid h first
  calc (w.after (first :: (body ++ [last]))).scopes.stack
      = (last.moved ((first.moved w).after body)).scopes.stack :=
        congrArg (·.scopes.stack) (after_append (first.moved w) body [last])
    _ = w.scopes.stack :=
        (stack_of_bracket h (after_valid hvalid body) hopens hcloses (hbody _ hvalid).tail).2

theorem Kept.bracket {body : List Action} (hbody : Kept body) (hopens : first.opens = true)
    (hcloses : last.closes = true) : Kept (first :: (body ++ [last])) :=
  fun _ hvalid => .of_stack hvalid (after_valid hvalid _)
    (hbody.stack_bracket hvalid hopens hcloses) _

end Walker

theorem Action.IsPlain.flat {c : Context} {a : Action} (h : a.IsPlain c) :
    a.opens = false ∧ a.closes = false := by
  cases a with
  | openClass | openBlock | openRoutine | closeScope | closeRoutine => exact h.elim
  | _ => exact ⟨rfl, rfl⟩

theorem Action.flat_of_entries {a : Action} (h : a.entries ≠ []) :
    a.opens = false ∧ a.closes = false := by
  cases a with
  | registerClass | addType | addFunction | declareMethod | setGlobal | setMember =>
      exact ⟨rfl, rfl⟩
  | _ => exact absurd rfl h

/-- The steps of a tree keep all that is below the innermost scope: by induction on the
rules, where each of the brackets leaves the whole stack as it was. -/
theorem Script.kept {c : Context} {as : List Action} (h : Script c as) : Walker.Kept as := by
  induction h with
  | nil => exact fun w _ => .refl [] w
  | append _ _ iha ihb => exact iha.append ihb
  | plain ha => exact .step ha.flat
  | entered hentries _ hb => exact .append (.step (flat_of_entries hentries)) (.step hb.flat)
  | recorded ha _ hb =>
      refine .append (.step hb.flat) (.step ?_)
      rcases ha with rfl | rfl <;> exact ⟨rfl, rfl⟩
  | @classScope c className _ _ _ _ _ hmention _ _ _ ihbefore ihbetween ihbody =>
      have registered : Walker.Kept [.registerClass className] := .step ⟨rfl, rfl⟩
      exact .append (.step hmention.flat)
        (ihbefore.append (registered.append (ihbetween.append (ihbody.bracket rfl rfl))))
  | block _ ih | routine _ ih => exact ih.bracket rfl rfl

/-! ## The parameters, the tables and the run -/

/-- A step that the parameters do not outlast as they were. -/
def Action.touchesParameters : Action → Bool
  | .openRoutine | .closeRoutine | .setParameter .. => true
  | _ => false

theorem Walker.parameters_after {steps : List Action}
    (h : ∀ a ∈ steps, a.touchesParameters = false) (w : Walker) :
    (w.after steps).parameters = w.parameters := by
  induction steps generalizing w with
  | nil => rfl
  | cons a rest ih =>
      obtain ⟨ha, hrest⟩ := List.forall_mem_cons.mp h
      refine (ih hrest (a.moved w)).trans ?_
      unfold moved perform
      cases a with
      | openRoutine | closeRoutine | setParameter => cases ha
      | implement => dsimp only; split <;> rfl
      | _ => rfl

/-- The step enters a name into the table of the class around, or into that of the global
variables. -/
def Action.Enters (c : Context) (name : String) (a : Action) : Prop :=
  a.typeAt? (.global name) ≠ none ∨
    ∃ className ∈ c.className, a.typeAt? (.member className name) ≠ none

/-- Steps without an inclusion leave the rest of the walk to be done, from the state behind
them; of the tables, they change the cells that they write. -/
theorem Run.walk_append (enter : String → Run → Outcome (Option FileResult)) (pass : Pass)
    (file : String) : ∀ {steps : List Action}, (∀ path, .inclusion path ∉ steps) →
      ∀ (w : Walker) (counts : Counts) (run : Run), ∃ (counts' : Counts) (run' : Run),
        (∀ rest, run.walk enter pass file (steps ++ rest) w counts =
          run'.walk enter pass file rest (w.after steps) counts') ∧
        ∀ cell, (∀ a ∈ steps, a.typeAt? cell = none) →
          run'.symbols.at? cell = run.symbols.at? cell
  | [], _, w, counts, run => ⟨counts, run, fun _ => rfl, fun _ _ => rfl⟩
  | a :: steps, h, w, counts, run => by
      have ha : ∀ path, a ≠ .inclusion path := fun path heq => h path (heq ▸ List.mem_cons_self)
      obtain ⟨counts', run', hwalk, hcells⟩ := walk_append enter pass file (fun path hmem =>
        h path (List.mem_cons_of_mem _ hmem)) (a.moved w)
        ((Act.emissions ⟨file, w, a⟩ run.symbols).foldl Counts.add counts)
        (run.act pass ⟨file, w, a⟩)
      refine ⟨counts', run', fun rest => ?_, fun cell hcell => ?_⟩
      · rw [List.cons_append, Run.walk_cons ha, hwalk rest]
        rfl
      · obtain ⟨hfirst, hrest⟩ := List.forall_mem_cons.mp hcell
        obtain ⟨log, hact⟩ := Run.act_frame pass ⟨file, w, a⟩ run
        rw [hcells cell hrest, hact]
        exact (at?_declared a run.symbols cell).trans (by rw [hfirst]; rfl)

/-! ## What a name means -/

namespace Walker

/-- The key and the type of a name. -/
def meaning (w : Walker) (t : Symbols) (c : Context) (name : String) : Key × Option String :=
  (w.resolve t c name, w.typeOf t c name)

variable {w w' : Walker} {t t' : Symbols} {c : Context} {name : String}

/-- A name means the same where the scopes, the tables and, if no scope declares it, the
parameters hold the same for it. -/
theorem meaning_congr (hfound : w'.scopes.lookup name = w.scopes.lookup name)
    (hparameter : w.scopes.lookup name ≠ none ∨ w'.parameters.get? name = w.parameters.get? name)
    (hglobal : t'.at? (.global name) = t.at? (.global name))
    (hmember : ∀ className ∈ c.className,
      t'.at? (.member className name) = t.at? (.member className name)) :
    w'.meaning t' c name = w.meaning t c name := by
  have hclass : t'.member? c.className name = t.member? c.className name := by
    cases hname : c.className with
    | none => rfl
    | some className => exact hmember className hname
  have hglobals : t'.globals.get? name = t.globals.get? name := hglobal
  unfold meaning resolve typeOf
  rw [hfound, hclass, hglobals]
  cases hlookup : w.scopes.lookup name with
  | some b => rfl
  | none =>
      rw [hlookup] at hparameter
      rw [hparameter.resolve_left (absurd rfl)]

end Walker

/-! ## Blocks and nested definitions -/

namespace Node

/-- A compound statement, a loop, a catch clause or a block literal. -/
def isBlock : Node → Bool
  | .compoundStatement .. | .forStatement .. | .catchClause .. | .blockExpression .. => true
  | _ => false

/-- A construct that enters names into the tables wherever it stands: a class with what
it holds, a property or an `extern` declaration. -/
def isLasting (n : Node) : Bool := n.isContainer || n.isProperty || n.isExtern

/-- The type that a function returns stands outside the function. -/
def returnSteps (c : Context) : Node → List Action
  | .functionDefinition _ specifiers (some ⟨_, some _, _, _⟩) _ =>
      Specifier.actionsOfAll c specifiers
  | _ => []

variable {c : Context} {n : Node}

theorem Lacks.of_children {kind : Node → Bool} (hself : kind n = false)
    (hchildren : ∀ p ∈ n.children c, p.2.Lacks p.1 kind) : n.Lacks c kind := by
  intro d m hholds
  cases hholds with
  | here => exact hself
  | inside hchild hinside => exact hchildren _ hchild d m hinside

theorem Lacks.no_inclusion (h : n.Lacks c isInclusion) (path : String) :
    .inclusion path ∉ n.actions c :=
  h.not_mem fun _ => id

theorem Lacks.touches_no_parameters (h : n.Lacks c isDefinition) :
    ∀ a ∈ n.actions c, a.touchesParameters = false := by
  intro a ha
  cases a with
  | openRoutine | closeRoutine | setParameter => exact absurd ha (h.not_mem fun _ => id)
  | _ => rfl

/-- Inside a method, nothing else enters a name. -/
theorem Lacks.enters_nothing (hmethod : c.methodName ≠ none) (h : n.Lacks c isLasting)
    (name : String) : ∀ a ∈ n.actions c, ¬ a.Enters c name := by
  have hwrite : ∀ a ∈ n.actions c, a.write? = none := by
    intro a ha
    cases a with
    | registerClass =>
        refine absurd ha (h.not_mem fun m hm => ?_)
        simp only [isLasting, show m.isContainer = true from hm, Bool.true_or]
    | setGlobal =>
        refine absurd ha (h.not_mem fun m hm => ?_)
        simp only [isLasting, hm.resolve_left hmethod, Bool.or_true]
    | setMember =>
        refine absurd ha (h.not_mem fun m hm => ?_)
        rcases hm.resolve_left hmethod with hm | hm
        · simp only [isLasting, hm, Bool.or_true, Bool.true_or]
        · simp only [isLasting, hm, Bool.true_or]
    | _ => rfl
  intro a ha henters
  rcases henters with hcell | ⟨className, -, hcell⟩
  · exact hcell (by rw [typeAt?, hwrite a ha])
  · exact hcell (by rw [typeAt?, hwrite a ha])

/-- A block is a bracket. -/
theorem exists_block (h : n.isBlock = true) (c : Context) :
    ∃ body, n.actions c = .openBlock :: (body ++ [.closeScope]) ∧ Script c body := by
  cases n with
  | compoundStatement _ items => exact ⟨_, by rw [actions]; rfl, Node.scriptOfAll c items⟩
  | forStatement _ header parts body =>
      exact ⟨_, by rw [actions]; rfl, ((Declaration.localScriptOfOption c header).append
        (Node.scriptOfAll c parts)).append (Node.scriptOfOption c body)⟩
  | catchClause _ parameter body =>
      exact ⟨_, by rw [actions]; rfl, (Parameter.localScriptOfOption c parameter).append
        (Node.scriptOfOption c body)⟩
  | blockExpression _ parameters body =>
      exact ⟨_, by rw [actions]; rfl, (Parameter.localScriptOfAll c parameters).append
        (Node.scriptOfOption c body)⟩
  | _ => cases h

/-- A definition is left out, or it is a bracket with the type of its result in front. -/
theorem exists_definition (h : n.isDefinition = true) (c : Context) :
    (n.routine? c = none ∧ ∃ reason start, n.actions c = [.skip reason start]) ∨
    ((n.routine? c).isSome ∧ ∃ head body d,
      n.actions c = head ++ (n.returnSteps c ++ .openRoutine :: (body ++ [.closeRoutine])) ∧
      Script c head ∧ (∀ a ∈ head, ∀ name, a.declares name = false) ∧
      Script c (n.returnSteps c) ∧ Script d body) := by
  cases n with
  | functionDefinition e specifiers declarator body =>
      match declarator with
      | none | some ⟨_, none, _, _⟩ => exact Or.inl ⟨rfl, _, _, by rw [actions.eq_def]⟩
      | some ⟨x, some name, nested, parameters⟩ =>
          refine Or.inr ⟨rfl, [defineName name e .function (.global name.text),
            .addFunction name.text], _, { c with methodName := name.text }, ?_,
            .recorded (.inr rfl) (refers_defineName _ _ _) trivial, ?_,
            Specifier.scriptOfAll c specifiers,
            (Parameter.scriptOfOption _ parameters).append (Node.scriptOfOption _ body)⟩
          · simp only [actions, returnSteps, List.append_assoc, List.cons_append, List.nil_append]
          · exact List.forall_mem_cons.mpr
              ⟨fun _ => rfl, List.forall_mem_singleton.mpr fun _ => rfl⟩
  | methodDefinition e isClassMethod returnType selector body =>
      cases selector with
      | none => exact Or.inl ⟨rfl, _, _, actions_methodDefinition_outside (.inr rfl) _ _ _ _⟩
      | some s =>
          cases hclass : c.className with
          | none =>
              refine Or.inl ⟨?_, _, _, actions_methodDefinition_outside (.inl hclass) _ _ _ _⟩
              rw [routine?, hclass]
              rfl
          | some className =>
              refine Or.inr ⟨by rw [routine?, hclass]; rfl,
                [.implement s.anchor e (.member className s.name) s.name,
                  .addFunction (Key.member className s.name).path], _,
                { c with methodName := s.name }, actions_methodDefinition hclass _ _ _ _ _,
                .implemented _ _ _ _, ?_, .nil, .append (.append
                  (TypeName.scriptOfOption _ returnType)
                  (KeywordDeclarator.scriptOfAll _ _ s.keywords)) (Node.scriptOfOption _ body)⟩
              exact List.forall_mem_cons.mpr
                ⟨fun _ => rfl, List.forall_mem_singleton.mpr fun _ => rfl⟩
  | _ => cases h

end Node

/-- Walking a construct without inclusions changes no name that is still found as it was,
unless the construct enters it into the tables. -/
theorem Run.walk_keeps_meaning (enter : String → Run → Outcome (Option FileResult)) (pass : Pass)
    (file : String) {c : Context} {n : Node} (hinclusion : n.Lacks c Node.isInclusion)
    (w : Walker) (counts : Counts) (run : Run) : ∃ (counts' : Counts) (run' : Run),
      (∀ rest, run.walk enter pass file (n.actions c ++ rest) w counts =
        run'.walk enter pass file rest (w.after (n.actions c)) counts') ∧
      ∀ name, ((∀ a ∈ n.actions c, ¬ a.Enters c name) ∨
          c.methodName ≠ none ∧ n.Lacks c Node.isLasting) →
        (w.after (n.actions c)).scopes.lookup name = w.scopes.lookup name →
        (w.scopes.lookup name ≠ none ∨
          (w.after (n.actions c)).parameters.get? name = w.parameters.get? name) →
        (w.after (n.actions c)).meaning run'.symbols c name = w.meaning run.symbols c name := by
  obtain ⟨counts', run', hwalk, hcells⟩ :=
    Run.walk_append enter pass file hinclusion.no_inclusion w counts run
  refine ⟨counts', run', hwalk, fun name henters hfound hparameter => ?_⟩
  have hnone : ∀ a ∈ n.actions c, ¬ a.Enters c name := by
    rcases henters with henters | ⟨hmethod, hlasting⟩
    · exact henters
    · exact hlasting.enters_nothing hmethod name
  refine Walker.meaning_congr hfound hparameter (hcells _ fun a ha => ?_) fun className hclass =>
    hcells _ fun a ha => ?_
  · by_contra hcell
    exact hnone a ha (Or.inl hcell)
  · by_contra hcell
    exact hnone a ha (Or.inr ⟨className, hclass, hcell⟩)

/-- A block leaves every name as it was, its key and its type, but for those that it
enters into the table of the class or of the global variables.  Inside a method, it enters
none if it holds no class, property or `extern` declaration. -/
theorem Run.block_leaves_names {c : Context} {n : Node} (hblock : n.isBlock = true)
    (hinclusion : n.Lacks c Node.isInclusion) (hdefinition : n.Lacks c Node.isDefinition)
    (enter : String → Run → Outcome (Option FileResult)) (pass : Pass) (file : String)
    (front : List Action) (counts : Counts) (run : Run) :
    let w := ({} : Walker).after front
    ∃ (w' : Walker) (counts' : Counts) (run' : Run),
      (∀ rest, run.walk enter pass file (n.actions c ++ rest) w counts =
        run'.walk enter pass file rest w' counts') ∧
      ∀ name, ((∀ a ∈ n.actions c, ¬ a.Enters c name) ∨
          c.methodName ≠ none ∧ n.Lacks c Node.isLasting) →
        w'.meaning run'.symbols c name = w.meaning run.symbols c name := by
  intro w
  have hvalid : w.scopes.Valid := Walker.after_valid Scopes.initial_valid front
  have hvalid' := Walker.after_valid hvalid (n.actions c)
  obtain ⟨counts', run', hwalk, hmeaning⟩ :=
    walk_keeps_meaning enter pass file hinclusion w counts run
  refine ⟨w.after (n.actions c), counts', run', hwalk, fun name henters => ?_⟩
  have hstack : (w.after (n.actions c)).scopes.stack = w.scopes.stack := by
    obtain ⟨body, hactions, hbody⟩ := Node.exists_block hblock c
    rw [hactions]
    exact hbody.kept.stack_bracket hvalid rfl rfl
  have hparameters := Walker.parameters_after hdefinition.touches_no_parameters w
  refine hmeaning name henters ?_ (Or.inr (by rw [hparameters]))
  rw [Scopes.lookup_eq hvalid', Scopes.lookup_eq hvalid, hstack]

/-! Examples, with the state inside

    void f(int p) { int x; …

and a block that declares another `x`. -/

/-- No file is configured, so no inclusion is followed. -/
def Run.stay (_ : String) (run : Run) : Outcome (Option FileResult) := .done run none

def Context.inF : Context := ⟨none, some "f"⟩

def Action.insideF : List Action :=
  [.openRoutine, .setParameter "p" (some "int"), .openBlock,
    .declareLocal .inF ⟨"x", 20, 20⟩ {} .variable (some "int")]

def Node.typed (type name : String) : Node :=
  .declaration ⟨{}, [], [.primitive ⟨type, 0, 0⟩ []],
    [⟨{}, some ⟨{}, some ⟨name, 0, 0⟩, false, none⟩, none⟩]⟩

/-- `{ char x; x; }` -/
def Node.shadowing : Node :=
  .compoundStatement {} [.typed "char" "x", .identifier ⟨"x", 0, 0⟩ none]

/-- `{ @property int q; }` -/
def Node.withProperty : Node :=
  .compoundStatement {} [.propertyDeclaration {} [] [.primitive ⟨"int", 0, 0⟩ []] [⟨"q", 0, 0⟩]]

theorem Node.shadowing_lacks {c : Context} {kind : Node → Bool} (hblock : kind .shadowing = false)
    (htyped : kind (.typed "char" "x") = false)
    (hread : kind (.identifier ⟨"x", 0, 0⟩ none) = false) : Node.shadowing.Lacks c kind :=
  .of_children hblock (List.forall_mem_cons.mpr ⟨.of_children htyped (List.forall_mem_nil _),
    List.forall_mem_singleton.mpr (.of_children hread (List.forall_mem_nil _))⟩)

/-- Behind the block, `x` is the `x` of the block around again. -/
theorem Run.block_leaves_names_shadowing :
    Node.shadowing.isBlock = true ∧ Node.shadowing.Lacks .inF Node.isInclusion ∧
    Node.shadowing.Lacks .inF Node.isDefinition ∧
    ∃ (w' : Walker) (counts' : Counts) (run' : Run),
      (∀ rest, ({} : Run).walk stay .emitting "a.m" (Node.shadowing.actions .inF ++ rest)
          (({} : Walker).after insideF) {} = run'.walk stay .emitting "a.m" rest w' counts') ∧
      w'.meaning run'.symbols .inF "x" = (⟨["f", "x"], 1⟩, some "int") := by
  have hinclusion : Node.shadowing.Lacks .inF Node.isInclusion := Node.shadowing_lacks rfl rfl rfl
  have hdefinition : Node.shadowing.Lacks .inF Node.isDefinition :=
    Node.shadowing_lacks rfl rfl rfl
  have hlasting : Node.shadowing.Lacks .inF Node.isLasting := Node.shadowing_lacks rfl rfl rfl
  refine ⟨rfl, hinclusion, hdefinition, ?_⟩
  obtain ⟨w', counts', run', hwalk, hmeaning⟩ :=
    block_leaves_names rfl hinclusion hdefinition stay .emitting "a.m" insideF {} {}
  exact ⟨w', counts', run', hwalk, (hmeaning "x" (Or.inr ⟨nofun, hlasting⟩)).trans (by decide)⟩

/-- Outside a method, a variable of a block becomes a global variable; and a property in a
block of a method becomes a member of the class. -/
theorem Run.blocks_enter_names :
    (let steps := Node.shadowing.actions {}
      let run := (({} : Run).walk stay .emitting "a.m" steps {} {}).run
      ({} : Walker).meaning {} {} "x" = (.global "x", none) ∧
        (({} : Walker).after steps).meaning run.symbols {} "x" = (.global "x", some "char")) ∧
    let c : Context := ⟨some "C", some "m:"⟩
    let w := ({} : Walker).after [.openClass, .openRoutine, .openBlock]
    let steps := Node.withProperty.actions c
    let run := (({} : Run).walk stay .emitting "a.m" steps w {}).run
    w.meaning {} c "q" = (.global "q", none) ∧
      (w.after steps).meaning run.symbols c "q" = (.member "C" "q", some "int") := by
  decide

/-- The scopes and the parameters behind a definition. -/
theorem Node.after_definition {c : Context} {n : Node} (h : n.isDefinition = true) {w : Walker}
    (hvalid : w.scopes.Valid) :
    (w.after (n.actions c)).parameters = (if (n.routine? c).isSome then [] else w.parameters) ∧
    ∀ name, (∀ a ∈ n.returnSteps c, a.declares name = false) →
      (w.after (n.actions c)).scopes.lookup name = w.scopes.lookup name := by
  obtain ⟨hroutine, reason, start, hactions⟩ | ⟨hroutine, head, body, d, hactions, hhead, hother,
    hreturn, hbody⟩ := Node.exists_definition h c
  · rw [hactions, hroutine]
    exact ⟨rfl, fun _ _ => rfl⟩
  · rw [hactions, if_pos hroutine, Walker.after_append, Walker.after_append]
    have hvalid₁ := Walker.after_valid hvalid head
    have hvalid₂ := Walker.after_valid hvalid₁ (n.returnSteps c)
    constructor
    · exact congrArg Walker.parameters
        (Walker.after_append _ (.openRoutine :: body) [.closeRoutine])
    · intro name hname
      have hstack : (Walker.after _ (.openRoutine :: (body ++ [.closeRoutine]))).scopes.stack = _ :=
        hbody.kept.stack_bracket hvalid₂ rfl rfl
      rw [Scopes.lookup_eq (Walker.after_valid hvalid₂ _), hstack, ← Scopes.lookup_eq hvalid₂,
        (hreturn.kept _ hvalid₁).found name hname,
        (hhead.kept _ hvalid).found name fun a ha => hother a ha name]

/-- A nested definition leaves a name as it was, its key and its type, if a scope around
declares the name or the name is no parameter: the parameters of the definition around are
gone.  The type that a nested function returns declares its constants around the function,
and what is entered into the tables stays there. -/
theorem Run.nested_definition_leaves_names {c : Context} {n : Node}
    (hdefinition : n.isDefinition = true) (hinclusion : n.Lacks c Node.isInclusion)
    (enter : String → Run → Outcome (Option FileResult)) (pass : Pass) (file : String)
    (front : List Action) (counts : Counts) (run : Run) :
    let w := ({} : Walker).after front
    ∃ (w' : Walker) (counts' : Counts) (run' : Run),
      (∀ rest, run.walk enter pass file (n.actions c ++ rest) w counts =
        run'.walk enter pass file rest w' counts') ∧
      w'.parameters = (if (n.routine? c).isSome then [] else w.parameters) ∧
      ∀ name, (n.routine? c = none ∨ w.scopes.lookup name ≠ none ∨
          w.parameters.get? name = none) →
        (∀ a ∈ n.returnSteps c, a.declares name = false) →
        ((∀ a ∈ n.actions c, ¬ a.Enters c name) ∨
          c.methodName ≠ none ∧ n.Lacks c Node.isLasting) →
        w'.meaning run'.symbols c name = w.meaning run.symbols c name := by
  intro w
  have hvalid : w.scopes.Valid := Walker.after_valid Scopes.initial_valid front
  obtain ⟨counts', run', hwalk, hmeaning⟩ :=
    walk_keeps_meaning enter pass file hinclusion w counts run
  obtain ⟨hparameters, hfound⟩ := Node.after_definition (c := c) hdefinition hvalid
  refine ⟨_, counts', run', hwalk, hparameters, fun name hname hreturn henters => ?_⟩
  refine hmeaning name henters (hfound name hreturn) ?_
  rw [hparameters]
  rcases hname with hroutine | hbound | hnone
  · exact Or.inr (by rw [hroutine]; rfl)
  · exact Or.inl hbound
  · refine Or.inr ?_
    split
    · exact hnone.symm
    · rfl

/-- `void g() { char x; x; }` -/
def Node.nested : Node :=
  .functionDefinition {} [.primitive ⟨"void", 0, 0⟩ []]
    (some ⟨{}, some ⟨"g", 0, 0⟩, false, some []⟩) (some .shadowing)

theorem Node.nested_lacks {kind : Node → Bool} (hself : kind .nested = false)
    (hbody : Node.shadowing.Lacks ⟨none, some "g"⟩ kind) : Node.nested.Lacks .inF kind :=
  .of_children hself (List.forall_mem_singleton.mpr hbody)

/-- Behind the definition of `g`, the `x` of `f` is what it was. -/
theorem Run.nested_definition_leaves_names_shadowing :
    Node.nested.isDefinition = true ∧ Node.nested.Lacks .inF Node.isInclusion ∧
    ∃ (w' : Walker) (counts' : Counts) (run' : Run),
      (∀ rest, ({} : Run).walk stay .emitting "a.m" (Node.nested.actions .inF ++ rest)
          (({} : Walker).after insideF) {} = run'.walk stay .emitting "a.m" rest w' counts') ∧
      w'.meaning run'.symbols .inF "x" = (⟨["f", "x"], 1⟩, some "int") := by
  have hinclusion : Node.nested.Lacks .inF Node.isInclusion :=
    Node.nested_lacks rfl (Node.shadowing_lacks rfl rfl rfl)
  have hlasting : Node.nested.Lacks .inF Node.isLasting :=
    Node.nested_lacks rfl (Node.shadowing_lacks rfl rfl rfl)
  refine ⟨rfl, hinclusion, ?_⟩
  obtain ⟨w', counts', run', hwalk, -, hmeaning⟩ :=
    nested_definition_leaves_names rfl hinclusion stay .emitting "a.m" insideF {} {}
  exact ⟨w', counts', run', hwalk, (hmeaning "x" (Or.inr (Or.inl (by decide))) (by decide)
    (Or.inr ⟨nofun, hlasting⟩)).trans (by decide)⟩

/-- But the parameter `p` of `f` is not known any more. -/
theorem Run.nested_definition_forgets_parameter :
    let w := ({} : Walker).after insideF
    let steps := Node.nested.actions .inF
    let run := (({} : Run).walk stay .emitting "a.m" steps w {}).run
    w.meaning {} .inF "p" = (⟨["f", "p"], 0⟩, some "int") ∧
      (w.after steps).meaning run.symbols .inF "p" = (.global "p", none) := by
  decide

end SymbolGraph
