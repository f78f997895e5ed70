import SymbolGraph.Proofs.Frames
import SymbolGraph.Proofs.Traversal

/-!
# `Proofs.Environment` — names as lexical scoping has them

A second semantics for names, by which the walk is measured.  An ENVIRONMENT goes into a
construct and another one comes out of it: the blocks that are open, innermost first, each
with the keys of the names that it has so far.  On the way the construct BINDS names, each
under a key, and USES names, each with the key that the environment has for it.

    a sequence       passes the environment on
    a declaration    binds its name in the innermost block
    a block          gets an empty block on top, and gives back what was around it

There are no frames that are used again and no scopes to be closed here, and no tables.
Only the number of the blocks opened so far goes through, as the keys depend on it.

`Node.denotes` is the agreement: performed from any state, the steps of a construct bind
and find what the construct binds and uses in the environment which that state shows.
-/

namespace SymbolGraph

open SymbolGraph.Action

/-! ## Environments -/

/-- The names of the open blocks, innermost first, with their keys, and how many blocks
the routine has opened so far. -/
structure Env where
  blocks : List (String → Option Key)
  opened : Nat

namespace Env

/-- The key of a name in the innermost block that has it. -/
def find (e : Env) (name : String) : Option Key := e.blocks.findSome? (· name)

/-- The innermost block gets a name, in place of one that it has. -/
def bind (e : Env) (name : String) (key : Key) : Env :=
  { e with blocks := e.blocks.modifyHead fun block other =>
      if name = other then some key else block other }

end Env

/-- A name that is bound, with its key, or used, with the key that binds it, if any. -/
inductive Sighting where
  | bound (ident : Excerpt) (key : Key)
  | used (occurrence : Excerpt) (key : Option Key)
  deriving Repr, DecidableEq

/-- What becomes of the environment, and the names that are bound and used on the way. -/
abbrev Transfer := Env → Env × List Sighting

namespace Transfer

def nothing : Transfer := fun e => (e, [])

def andThen (f g : Transfer) : Transfer := fun e =>
  ((g (f e).1).1, (f e).2 ++ (g (f e).1).2)

/-- Binds a name of the context, under a key with the number of the block. -/
def bind (c : Context) (ident : Excerpt) : Transfer := fun e =>
  let key := (c.key ident.text).inBlock e.opened
  (e.bind ident.text key, [.bound ident key])

def use (occurrence : Excerpt) : Transfer := fun e =>
  (e, [.used occurrence (e.find occurrence.text)])

/-- Inside an empty block of its own; behind it, the blocks around are what they were. -/
def within (number : Nat → Nat) (f : Transfer) : Transfer := fun e =>
  let inside := f ⟨(fun _ => none) :: e.blocks, number e.opened⟩
  (⟨e.blocks, inside.1.opened⟩, inside.2)

def block (f : Transfer) : Transfer := within (· + 1) f

def classBody (f : Transfer) : Transfer := within id f

/-- The blocks of a routine are counted anew. -/
def routine (f : Transfer) : Transfer := within (fun _ => 0) f

/-- A variable is a name of its block inside a method only. -/
def declare (c : Context) (ident : Excerpt) : Transfer :=
  if c.methodName.isSome then bind c ident else nothing

def identifier (ident : Excerpt) : Transfer :=
  if ident.text = "super" ∨ ident.text = "self" then nothing else use ident

/-- What the header of a loop, a clause or a block literal declares is a name of the
block, wherever the block stands. -/
def header (c : Context) : Option Declarator → Transfer
  | some ⟨_, some ident, _, _⟩ => bind c ident
  | _ => nothing

/-- A declarator in parentheses is a use; types, functions and `extern` variables are no
names of a block. -/
def declarator (c : Context) (d : Declaration) (ident : Excerpt) (declarator : Declarator) :
    Transfer :=
  if "typedef" ∈ d.storage then nothing
  else if declarator.nested then use ident
  else if declarator.parameters.isSome ∨ "extern" ∈ d.storage then nothing
  else declare c ident

end Transfer

/-! ## The denotation of each construct -/

open Transfer

mutual

def Node.denote (c : Context) : Node → Transfer
  | .unit _ items | .generic _ _ items => Node.denoteAll c items
  | .classInterface _ (some name) _ _ ivars members
  | .categoryInterface _ (some name) _ _ ivars members
  | .classImplementation _ (some name) _ _ ivars members =>
      classBody ((Ivar.denoteAll { c with className := name.text } ivars).andThen
        (Node.denoteAll { c with className := name.text } members))
  | .protocolDeclaration _ (some name) _ members =>
      classBody (Node.denoteAll { c with className := name.text } members)
  | .methodDeclaration _ _ returnType (some ⟨_, _, keywords⟩) =>
      if c.className.isSome then
        (TypeName.denoteOption c returnType).andThen (KeywordDeclarator.denoteAll c keywords)
      else nothing
  | .methodDefinition _ _ returnType (some ⟨excerpt, unary, keywords⟩) body =>
      if c.className.isSome then
        let inner := { c with methodName := (Selector.mk excerpt unary keywords).name }
        routine (((TypeName.denoteOption inner returnType).andThen
          (KeywordDeclarator.denoteAll inner keywords)).andThen (Node.denoteOption inner body))
      else nothing
  | .propertyDeclaration _ _ specifiers _ =>
      if c.className.isSome then Specifier.denoteAll c specifiers else nothing
  | .declaration d => Declaration.denote c d
  | .functionDefinition _ specifiers (some ⟨_, some name, _, parameters⟩) body =>
      (Specifier.denoteAll c specifiers).andThen (routine
        ((Parameter.denoteOption { c with methodName := name.text } parameters).andThen
          (Node.denoteOption { c with methodName := name.text } body)))
  | .compoundStatement _ items => block (Node.denoteAll c items)
  | .forStatement _ header parts body =>
      block (((Declaration.denoteHeader c header).andThen (Node.denoteAll c parts)).andThen
        (Node.denoteOption c body))
  | .catchClause _ parameter body =>
      block ((Parameter.denoteHeaderOption c parameter).andThen (Node.denoteOption c body))
  | .blockExpression _ parameters body =>
      block ((Parameter.denoteHeaderAll c parameters).andThen (Node.denoteOption c body))
  | .identifier e name => identifier (name.getD e)
  | .memberAccess _ (some (.identifier e name)) _ _ =>
      if e.text = "self" ∨ e.text = "super" then nothing else identifier (name.getD e)
  | .memberAccess _ receiver _ _ => Node.denoteOption c receiver
  | .messageExpression _ receiver selector =>
      (Node.denoteOption c receiver).andThen (MessageSelector.denoteOption c selector)
  | .castExpression _ typeName operand =>
      (TypeName.denoteOption c typeName).andThen (Node.denoteOption c operand)
  | _ => nothing

def Node.denoteAll (c : Context) : List Node → Transfer
  | [] => nothing
  | n :: rest => (Node.denote c n).andThen (Node.denoteAll c rest)

def Node.denoteOption (c : Context) : Option Node → Transfer
  | none => nothing
  | some n => Node.denote c n

def Specifier.denote (c : Context) : Specifier → Transfer
  | .enum _ (some ⟨_, _, underlying, constants⟩) _ =>
      (TypeName.denoteOption c underlying).andThen (Enumerator.denoteAll c constants)
  | _ => nothing

def Specifier.denoteAll (c : Context) : List Specifier → Transfer
  | [] => nothing
  | s :: rest => (Specifier.denote c s).andThen (Specifier.denoteAll c rest)

/-- A constant is bound before its own value. -/
def Enumerator.denoteAll (c : Context) : List Enumerator → Transfer
  | [] => nothing
  | ⟨_, none, _⟩ :: rest => Enumerator.denoteAll c rest
  | ⟨_, some name, value⟩ :: rest =>
      ((declare c name).andThen (Node.denoteOption c value)).andThen (Enumerator.denoteAll c rest)

def TypeName.denoteOption (c : Context) : Option TypeName → Transfer
  | none => nothing
  | some ⟨_, specifiers⟩ => Specifier.denoteAll c specifiers

def Declaration.denote (c : Context) : Declaration → Transfer
  | ⟨e, storage, specifiers, declarators⟩ =>
      (Specifier.denoteAll c specifiers).andThen
        (InitDeclarator.denoteAll c ⟨e, storage, specifiers, []⟩ declarators)

/-- A variable is bound before its own value. -/
def InitDeclarator.denoteAll (c : Context) (d : Declaration) : List InitDeclarator → Transfer
  | [] => nothing
  | ⟨_, some ⟨e, some ident, nested, parameters⟩, value⟩ :: rest =>
      (((Transfer.declarator c d ident ⟨e, some ident, nested, parameters⟩).andThen
        (if isPrototype d ⟨e, some ident, nested, parameters⟩ then
          Parameter.denoteOption c parameters else nothing)).andThen
        (Node.denoteOption c value)).andThen (InitDeclarator.denoteAll c d rest)
  | ⟨_, _, value⟩ :: rest => (Node.denoteOption c value).andThen (InitDeclarator.denoteAll c d rest)

def Declaration.denoteHeader (c : Context) : Option Declaration → Transfer
  | none => nothing
  | some ⟨_, _, specifiers, declarators⟩ =>
      (Specifier.denoteAll c specifiers).andThen (InitDeclarator.denoteHeaderAll c declarators)

def InitDeclarator.denoteHeaderAll (c : Context) : List InitDeclarator → Transfer
  | [] => nothing
  | ⟨_, declarator, value⟩ :: rest =>
      ((header c declarator).andThen (Node.denoteOption c value)).andThen
        (InitDeclarator.denoteHeaderAll c rest)

/-- Of a parameter of a routine, only the type matters here: the environment has no
parameters. -/
def Parameter.denoteAll (c : Context) : List Parameter → Transfer
  | [] => nothing
  | ⟨_, specifiers, _⟩ :: rest =>
      (Specifier.denoteAll c specifiers).andThen (Parameter.denoteAll c rest)

def Parameter.denoteOption (c : Context) : Option (List Parameter) → Transfer
  | none => nothing
  | some parameters => Parameter.denoteAll c parameters

def Parameter.denoteHeader (c : Context) : Parameter → Transfer
  | ⟨_, specifiers, declarator⟩ =>
      (Specifier.denoteAll c specifiers).andThen (header c declarator)

def Parameter.denoteHeaderAll (c : Context) : List Parameter → Transfer
  | [] => nothing
  | p :: rest => (Parameter.denoteHeader c p).andThen (Parameter.denoteHeaderAll c rest)

def Parameter.denoteHeaderOption (c : Context) : Option Parameter → Transfer
  | none => nothing
  | some p => Parameter.denoteHeader c p

def Ivar.denoteAll (c : Context) : List Ivar → Transfer
  | [] => nothing
  | ⟨_, specifiers, _, _⟩ :: rest =>
      (Specifier.denoteAll c specifiers).andThen (Ivar.denoteAll c rest)

def KeywordDeclarator.denoteAll (c : Context) : List KeywordDeclarator → Transfer
  | [] => nothing
  | ⟨_, _, typeName, _⟩ :: rest =>
      (TypeName.denoteOption c typeName).andThen (KeywordDeclarator.denoteAll c rest)

def MessageSelector.denoteOption (c : Context) : Option MessageSelector → Transfer
  | none => nothing
  | some ⟨_, _, keywords⟩ => KeywordArgument.denoteAll c keywords

def KeywordArgument.denoteAll (c : Context) : List KeywordArgument → Transfer
  | [] => nothing
  | ⟨_, _, argument⟩ :: rest =>
      (Node.denoteOption c argument).andThen (KeywordArgument.denoteAll c rest)

end

/-! ## What a walk shows -/

/-- The environment that the scopes of a walk show. -/
def Walker.env (w : Walker) : Env :=
  ⟨w.scopes.stack.map fun frame name => (frame.get? name).map (·.key), w.block⟩

/-- The name that a step binds or finds. -/
def Act.sighting? (a : Act) : Option Sighting :=
  match a.action with
  | .declareLocal c ident _ _ _ => some (.bound ident ((c.key ident.text).inBlock a.walker.block))
  | .read _ occurrence =>
      some (.used occurrence ((a.walker.scopes.lookup occurrence.text).map (·.key)))
  | _ => none

/-- The step opens and closes nothing, and binds and finds no name. -/
def Action.isSilent : Action → Bool
  | .openClass | .openBlock | .openRoutine | .closeScope | .closeRoutine => false
  | .declareLocal .. | .read .. => false
  | _ => true

namespace Walker

variable {w : Walker}

theorem find_env (h : w.scopes.Valid) (name : String) :
    w.env.find name = (w.scopes.lookup name).map (·.key) := by
  rw [Scopes.lookup_eq h, Env.find, env, List.findSome?_map, List.map_findSome?]
  rfl

theorem env_declare (h : w.scopes.Valid) (c : Context) (ident owner : Excerpt) (kind : Kind)
    (type : Option String) : ((declareLocal c ident owner kind type).moved w).env =
      w.env.bind ident.text ((c.key ident.text).inBlock w.block) := by
  obtain ⟨top, rest, hstack, hdeclared⟩ := Scopes.stack_declare h
    ⟨ident.text, type, (c.key ident.text).inBlock w.block⟩
  have hmoved : ((declareLocal c ident owner kind type).moved w).scopes.stack = _ := hdeclared
  simp only [env, Env.bind, hmoved, hstack, List.map_cons, List.modifyHead_cons, Env.mk.injEq,
    List.cons.injEq, and_true]
  refine ⟨funext fun name => ?_, rfl⟩
  rw [Dict.get?_set]
  split <;> rfl

theorem env_opens {a : Action} (ha : a.opens = true) (h : w.scopes.Valid) :
    (a.moved w).env = ⟨(fun _ => none) :: w.env.blocks, a.nextBlock w.env.opened⟩ := by
  rw [env, env, scopes_of_opens ha, Scopes.stack_push h, moved_block]
  rfl

theorem env_silent {a : Action} (ha : a.isSilent = true) (w : Walker) :
    (a.moved w).env = w.env := by
  have hmoved : a.moved w = w ∨ ∃ name type, a = .setParameter name type := by
    cases a with
    | setParameter name type => exact Or.inr ⟨name, type, rfl⟩
    | openClass | openBlock | openRoutine | closeScope | closeRoutine | declareLocal | read =>
        cases ha
    | implement =>
        refine Or.inl ?_
        unfold moved perform
        dsimp only
        split <;> rfl
    | _ => exact Or.inl rfl
  rcases hmoved with hmoved | ⟨name, type, rfl⟩
  · rw [hmoved]
  · rfl

end Walker

/-- Performed from any state, the steps do to the environment that the state shows what
the denotation says, and bind and find the same names; no scope below the innermost is
touched. -/
structure Denotes (steps : List Action) (f : Transfer) : Prop where
  agrees : ∀ file (w : Walker), w.scopes.Valid →
    f w.env = ((w.after steps).env, (Act.ofActions file steps w).filterMap Act.sighting?)
  kept : Walker.Kept steps

namespace Denotes

variable {as bs body : List Action} {f g : Transfer} {a first last : Action}

theorem nil : Denotes [] nothing where
  agrees _ _ _ := rfl
  kept w _ := .refl [] w

theorem append (hf : Denotes as f) (hg : Denotes bs g) : Denotes (as ++ bs) (f.andThen g) where
  agrees file w hvalid := by
    have hg' := hg.agrees file (w.after as) (Walker.after_valid hvalid as)
    rw [Transfer.andThen, hf.agrees file w hvalid, hg', Act.ofActions_append,
      List.filterMap_append, Walker.after_append]
  kept := hf.kept.append hg.kept

theorem silent (h : ∀ a ∈ as, a.isSilent = true) : Denotes as nothing := by
  induction as with
  | nil => exact .nil
  | cons a rest ih =>
      obtain ⟨ha, hrest⟩ := List.forall_mem_cons.mp h
      have hflat : a.opens = false ∧ a.closes = false := by
        cases a with
        | openClass | openBlock | openRoutine | closeScope | closeRoutine => cases ha
        | _ => exact ⟨rfl, rfl⟩
      refine (⟨fun file w _ => ?_, .step hflat⟩ : Denotes [a] nothing).append (ih hrest)
      have henv : (w.after [a]).env = w.env := Walker.env_silent ha w
      rw [henv]
      refine congrArg (Prod.mk w.env) ?_
      cases a with
      | openClass | openBlock | openRoutine | closeScope | closeRoutine | declareLocal | read =>
          cases ha
      | _ => rfl

theorem skip (ha : a.isSilent = true) : Denotes [a] nothing :=
  .silent (List.forall_mem_singleton.mpr ha)

theorem appendSilent (hf : Denotes as f) (hb : ∀ b ∈ bs, b.isSilent = true) :
    Denotes (as ++ bs) f := by
  have hboth := hf.append (.silent hb)
  refine ⟨fun file w hvalid => ?_, hboth.kept⟩
  rw [← hboth.agrees file w hvalid, andThen, nothing, List.append_nil]

theorem silentAppend (ha : ∀ a ∈ as, a.isSilent = true) (hg : Denotes bs g) :
    Denotes (as ++ bs) g :=
  (silent ha).append hg

theorem silentCons (ha : a.isSilent = true) (hg : Denotes bs g) : Denotes (a :: bs) g :=
  silentAppend (List.forall_mem_singleton.mpr ha) hg

theorem bind (c : Context) (ident owner : Excerpt) (kind : Kind) (type : Option String) :
    Denotes [.declareLocal c ident owner kind type] (Transfer.bind c ident) where
  agrees file w hvalid := by
    have henv : (w.after [.declareLocal c ident owner kind type]).env = _ :=
      Walker.env_declare hvalid c ident owner kind type
    rw [henv]
    rfl
  kept := .step ⟨rfl, rfl⟩

theorem use (c : Context) (occurrence : Excerpt) :
    Denotes [.read c occurrence] (Transfer.use occurrence) where
  agrees file w hvalid := by
    rw [Transfer.use, Walker.find_env hvalid]
    rfl
  kept := .step ⟨rfl, rfl⟩

/-- A bracket is a block of its own. -/
theorem bracket (h : Denotes body f) {number : Nat → Nat} (hopens : first.opens = true)
    (hcloses : last.closes = true) (hnumber : ∀ block, first.nextBlock block = number block) :
    Denotes (first :: (body ++ [last])) (within number f) where
  agrees file w hvalid := by
    have hinside := h.agrees file (first.moved w) (Walker.moved_valid hvalid first)
    rw [Walker.env_opens hopens hvalid, hnumber] at hinside
    have hafter : w.after (first :: (body ++ [last])) = last.moved ((first.moved w).after body) :=
      Walker.after_append (first.moved w) body [last]
    have hblock : (w.after (first :: (body ++ [last]))).block =
        ((first.moved w).after body).block := by
      rw [hafter, moved_block]
      cases last with
      | closeScope | closeRoutine => rfl
      | _ => cases hcloses
    have hacts : (Act.ofActions file (first :: (body ++ [last])) w).filterMap Act.sighting? =
        (Act.ofActions file body (first.moved w)).filterMap Act.sighting? := by
      have hfirst : (Act.ofActions file [first] w).filterMap Act.sighting? = [] := by
        cases first with
        | openClass | openBlock | openRoutine => rfl
        | _ => cases hopens
      have hlast : ∀ v : Walker, (Act.ofActions file [last] v).filterMap Act.sighting? = [] := by
        cases last with
        | closeScope | closeRoutine => exact fun _ => rfl
        | _ => cases hcloses
      rw [← List.singleton_append, Act.ofActions_append, Act.ofActions_append,
        List.filterMap_append, List.filterMap_append, hfirst, hlast, List.append_nil,
        List.nil_append]
      rfl
    rw [within, hinside, hacts, Walker.env, Walker.env, Walker.env, hblock,
      h.kept.stack_bracket hvalid hopens hcloses]
  kept := h.kept.bracket hopens hcloses

/-- Two parts in one scope: what is declared in its header, and what stands inside. -/
theorem bracketPair (hf : Denotes as f) (hg : Denotes bs g) {number : Nat → Nat}
    (hopens : first.opens = true) (hcloses : last.closes = true)
    (hnumber : ∀ block, first.nextBlock block = number block) :
    Denotes (first :: (as ++ (bs ++ [last]))) (within number (f.andThen g)) := by
  rw [← List.append_assoc]
  exact (hf.append hg).bracket hopens hcloses hnumber

theorem classBody (hf : Denotes as f) (hg : Denotes bs g) :
    Denotes (.openClass :: (as ++ (bs ++ [.closeScope]))) (Transfer.classBody (f.andThen g)) :=
  hf.bracketPair hg rfl rfl fun _ => rfl

end Denotes

/-! ## The parts of a construct that hold no construct -/

section Parts

variable (c : Context)

theorem silent_referNames (names : List Excerpt) :
    ∀ a ∈ names.map referName, a.isSilent = true := by
  intro a ha
  obtain ⟨e, -, rfl⟩ := List.mem_map.mp ha
  rfl

theorem silent_name (name : Option Excerpt) : ∀ a ∈ name.toList.flatMap (fun e =>
    if e.text ∈ reservedSpecifiers then [] else [referName e]), a.isSilent = true := by
  intro a ha
  obtain ⟨e, -, ha⟩ := List.mem_flatMap.mp ha
  split at ha
  · cases ha
  · rw [List.mem_singleton.mp ha]
    rfl

theorem silent_pair {a b : Action} (ha : a.isSilent = true) (hb : b.isSilent = true) :
    ∀ x ∈ [a, b], x.isSilent = true :=
  List.forall_mem_cons.mpr ⟨ha, List.forall_mem_singleton.mpr hb⟩

theorem denotes_declareVariable (ident owner : Excerpt) (type : Option String)
    (kind : Option Kind) :
    Denotes (declareVariable c ident owner type kind) (Transfer.declare c ident) := by
  unfold declareVariable Transfer.declare
  split
  · next hmethod => simpa only [hmethod] using .bind c ident owner _ type
  · next hmethod _ => simpa only [hmethod] using .silent (silent_pair rfl rfl)
  · next hmethod _ => simpa only [hmethod] using .silent (silent_pair rfl rfl)

theorem denotes_declareBound (declarator : Option Declarator) (owner : Excerpt)
    (type : Option String) :
    Denotes (declareBound c declarator owner type) (header c declarator) :=
  match declarator with
  | none | some ⟨_, none, _, _⟩ => .nil
  | some ⟨_, some ident, _, _⟩ => .bind c ident owner .variable type

theorem denotes_declareOne (d : Declaration) (ident : Excerpt) (declarator : Declarator) :
    Denotes (declareOne c d ident declarator) (Transfer.declarator c d ident declarator) := by
  unfold declareOne Transfer.declarator
  dsimp only
  split
  · exact .silent (silent_pair rfl rfl)
  split
  · exact .use c ident
  by_cases hparameters : declarator.parameters.isSome
  · rw [if_pos hparameters, if_pos (Or.inl hparameters)]
    exact .silent (silent_pair rfl rfl)
  rw [if_neg hparameters]
  by_cases hstorage : "extern" ∈ d.storage
  · rw [if_pos hstorage, if_pos (Or.inr hstorage)]
    exact .silent (silent_pair rfl rfl)
  · rw [if_neg hstorage, if_neg (not_or.mpr ⟨hparameters, hstorage⟩)]
    exact denotes_declareVariable c ident d.excerpt _ none

theorem denotes_readIdentifier (ident : Excerpt) :
    Denotes (readIdentifier c ident) (identifier ident) := by
  unfold readIdentifier identifier
  by_cases hsuper : ident.text = "super"
  · rw [if_pos hsuper, if_pos (Or.inl hsuper)]
    exact .nil
  rw [if_neg hsuper]
  by_cases hself : ident.text = "self"
  · rw [if_pos hself, if_pos (Or.inr hself)]
    refine .silent fun a ha => ?_
    obtain ⟨_, -, rfl⟩ := List.mem_map.mp ha
    rfl
  · rw [if_neg hself, if_neg (not_or.mpr ⟨hsuper, hself⟩)]
    exact .use c ident

theorem denotes_identifierAccess (x e : Excerpt) (name member : Option Excerpt) (isArrow : Bool) :
    Denotes (Node.actions c (.memberAccess x (some (.identifier e name)) member isArrow))
      (Node.denote c (.memberAccess x (some (.identifier e name)) member isArrow)) := by
  simp only [Node.actions, Node.denote]
  by_cases hself : e.text = "self" ∨ e.text = "super"
  · rw [if_pos hself, if_pos hself]
    refine .silent ?_
    split
    · split
      · exact List.forall_mem_nil _
      · exact List.forall_mem_singleton.mpr rfl
    · exact List.forall_mem_nil _
  · rw [if_neg hself, if_neg hself]
    refine .appendSilent (denotes_readIdentifier c _) fun a ha => ?_
    obtain ⟨m, -, rfl⟩ := List.mem_map.mp ha
    rfl

theorem silent_declareIvar (className : String) (ivar : Ivar) :
    ∀ a ∈ declareIvar className ivar, a.isSilent = true := by
  intro a ha
  obtain ⟨name, -, ha⟩ := List.mem_flatMap.mp ha
  exact silent_pair rfl rfl a ha

end Parts

/-! ## Every construct -/

mutual

theorem Node.denotes (c : Context) : ∀ n : Node, Denotes (n.actions c) (n.denote c)
  | .unit _ items | .generic _ _ items => by
      simp only [Node.actions, Node.denote]
      exact Node.denotesAll c items
  | .inclusion _ path _ _ => by
      simp only [Node.actions, Node.denote]
      refine .silent ?_
      split
      · exact List.forall_mem_nil _
      · exact List.forall_mem_singleton.mpr rfl
  | .classInterface e none _ _ _ _ | .categoryInterface e none _ _ _ _
  | .classImplementation e none _ _ _ _ | .protocolDeclaration e none _ _ => by
      simp only [Node.actions, Node.denote]
      exact .skip rfl
  | .classInterface e (some name) superclass protocols ivars members => by
      have body := (Ivar.denotesAll { c with className := name.text } name.text ivars).classBody
        (Node.denotesAll { c with className := name.text } members)
      simp only [Node.actions, Node.denote, List.append_assoc, List.cons_append]
      exact .silentCons rfl (.silentCons rfl (.silentAppend (silent_referNames superclass.toList)
        (.silentAppend (silent_referNames protocols) body)))
  | .categoryInterface e (some name) category protocols ivars members => by
      have body := (Ivar.denotesAll { c with className := name.text } name.text ivars).classBody
        (Node.denotesAll { c with className := name.text } members)
      simp only [Node.actions, Node.denote, List.append_assoc, List.cons_append]
      refine .silentCons rfl (.silentAppend ?_ (.silentCons rfl
        (.silentAppend (silent_referNames protocols) body)))
      intro a ha
      obtain ⟨k, -, ha⟩ := List.mem_flatMap.mp ha
      exact silent_pair rfl rfl a ha
  | .classImplementation _ (some name) superclass category ivars members => by
      have body := (Ivar.denotesAll { c with className := name.text } name.text ivars).classBody
        (Node.denotesAll { c with className := name.text } members)
      simp only [Node.actions, Node.denote, List.append_assoc, List.cons_append]
      exact .silentCons rfl (.silentCons rfl (.silentAppend (silent_referNames superclass.toList)
        (.silentAppend (silent_referNames category.toList) body)))
  | .protocolDeclaration e (some name) protocols members => by
      have body := Node.denotesAll { c with className := name.text } members
      simp only [Node.actions, Node.denote, List.append_assoc, List.cons_append]
      exact .silentCons rfl (.silentCons rfl (.silentAppend (silent_referNames protocols)
        (body.bracket rfl rfl fun _ => rfl)))
  | .forwardDeclaration _ names _ => by
      simp only [Node.actions, Node.denote]
      exact .silent (silent_referNames names)
  | .methodDeclaration e _ returnType none => by
      rw [Node.actions_methodDeclaration_outside (.inr rfl)]
      simp only [Node.denote]
      exact .skip rfl
  | .methodDeclaration e _ returnType (some ⟨excerpt, unary, keywords⟩) => by
      rw [Node.denote]
      cases hclass : c.className with
      | none =>
          rw [Node.actions_methodDeclaration_outside (.inl hclass)]
          exact .skip rfl
      | some className =>
          rw [Node.actions_methodDeclaration hclass]
          exact .silentCons rfl (.silentCons rfl (.append (TypeName.denotesOption c returnType)
            (KeywordDeclarator.denotesTypes c keywords)))
  | .methodDefinition e _ returnType none body => by
      rw [Node.actions_methodDefinition_outside (.inr rfl)]
      simp only [Node.denote]
      exact .skip rfl
  | .methodDefinition e _ returnType (some ⟨excerpt, unary, keywords⟩) body => by
      rw [Node.denote]
      obtain hclass | ⟨className, hclass⟩ := c.className.eq_none_or_eq_some
      · rw [Node.actions_methodDefinition_outside (.inl hclass), if_neg (by simp [hclass])]
        exact .skip rfl
      · rw [Node.actions_methodDefinition hclass, if_pos (by simp [hclass])]
        exact .silentCons rfl (.silentCons rfl (.bracket (.append (.append
          (TypeName.denotesOption _ returnType) (KeywordDeclarator.denotesAll _ _ keywords))
          (Node.denotesOption _ body)) rfl rfl fun _ => rfl))
  | .propertyDeclaration e _ specifiers names => by
      rw [Node.denote]
      cases hclass : c.className with
      | none =>
          simp only [Node.actions, hclass]
          exact .skip rfl
      | some className =>
          simp only [Node.actions, hclass]
          refine .appendSilent (Specifier.denotesAll c specifiers) fun a ha => ?_
          obtain ⟨name, -, ha⟩ := List.mem_flatMap.mp ha
          exact silent_pair rfl rfl a ha
  | .declaration ⟨e, storage, specifiers, declarators⟩ => by
      rw [Node.actions, Declaration.actions, Node.denote, Declaration.denote]
      exact (Specifier.denotesAll c specifiers).append (InitDeclarator.denotesAll c _ declarators)
  | .functionDefinition e specifiers none body => by
      simp only [Node.actions, Node.denote]
      exact .skip rfl
  | .functionDefinition e specifiers (some ⟨_, none, _, _⟩) body => by
      simp only [Node.actions, Node.denote]
      exact .skip rfl
  | .functionDefinition e specifiers (some ⟨_, some name, _, parameters⟩) body => by
      have parameters := Parameter.denotesOption { c with methodName := name.text } parameters
      have body := Node.denotesOption { c with methodName := name.text } body
      simp only [Node.actions, Node.denote, List.append_assoc, List.cons_append]
      exact .silentCons rfl (.silentCons rfl (.append (Specifier.denotesAll c specifiers)
        (parameters.bracketPair body rfl rfl fun _ => rfl)))
  | .compoundStatement _ items => by
      rw [Node.actions, Node.denote]
      exact (Node.denotesAll c items).bracket rfl rfl fun _ => rfl
  | .forStatement _ header parts body => by
      rw [Node.actions, Node.denote]
      exact (((Declaration.denotesHeader c header).append (Node.denotesAll c parts)).append
        (Node.denotesOption c body)).bracket rfl rfl fun _ => rfl
  | .catchClause _ parameter body => by
      rw [Node.actions, Node.denote]
      exact ((Parameter.denotesHeaderOption c parameter).append
        (Node.denotesOption c body)).bracket rfl rfl fun _ => rfl
  | .blockExpression _ parameters body => by
      rw [Node.actions, Node.denote]
      exact ((Parameter.denotesHeaderAll c parameters).append
        (Node.denotesOption c body)).bracket rfl rfl fun _ => rfl
  | .identifier e name => by
      rw [Node.actions, Node.denote]
      exact denotes_readIdentifier c (name.getD e)
  | .memberAccess x receiver member isArrow => by
      by_cases hident : ∃ e name, receiver = some (.identifier e name)
      · obtain ⟨e, name, rfl⟩ := hident
        exact denotes_identifierAccess c x e name member isArrow
      · have hother : ∀ e name, receiver ≠ some (.identifier e name) := fun e name heq =>
          hident ⟨e, name, heq⟩
        rw [Node.actions_memberAccess hother, Node.denote]
        · exact Node.denotesOption c receiver
        · exact hother
  | .messageExpression _ receiver selector => by
      rw [Node.actions.eq_def, Node.denote]
      dsimp only
      rw [List.append_assoc]
      refine .silentAppend ?_ (.append (Node.denotesOption c receiver)
        (MessageSelector.denotesOption c selector))
      split
      · exact List.forall_mem_singleton.mpr rfl
      · exact List.forall_mem_nil _
  | .castExpression _ typeName operand => by
      rw [Node.actions, Node.denote]
      exact (TypeName.denotesOption c typeName).append (Node.denotesOption c operand)

theorem Node.denotesAll (c : Context) : ∀ ns : List Node,
    Denotes (Node.actionsOfAll c ns) (Node.denoteAll c ns)
  | [] => by
      rw [Node.actionsOfAll, Node.denoteAll]
      exact .nil
  | n :: rest => by
      rw [Node.actionsOfAll, Node.denoteAll]
      exact (Node.denotes c n).append (Node.denotesAll c rest)

theorem Node.denotesOption (c : Context) : ∀ n : Option Node,
    Denotes (Node.actionsOfOption c n) (Node.denoteOption c n)
  | none => by
      rw [Node.actionsOfOption, Node.denoteOption]
      exact .nil
  | some n => by
      rw [Node.actionsOfOption, Node.denoteOption]
      exact Node.denotes c n

theorem Specifier.denotes (c : Context) : ∀ s : Specifier, Denotes (s.actions c) (s.denote c)
  | .enum _ none protocols => by
      simp only [Specifier.actions, Specifier.denote, Enumeration.actionsOfOption]
      exact .silentAppend (silent_referNames protocols) .nil
  | .enum _ (some ⟨e, name, underlying, constants⟩) protocols => by
      rw [Specifier.actions, Specifier.denote, Enumeration.actionsOfOption,
        Enumeration.actions.eq_def]
      refine .silentAppend (silent_referNames protocols) (.append (.appendSilent
        (TypeName.denotesOption c underlying) ?_) (Enumerator.denotesAll c _ constants))
      split
      · exact List.forall_mem_nil _
      · exact List.forall_mem_singleton.mpr rfl
      · exact silent_pair rfl rfl
  | .named _ name protocols | .struct _ name protocols => by
      simp only [Specifier.actions, Specifier.denote]
      exact .silentAppend (silent_referNames protocols) (.silent (silent_name name))
  | .primitive e protocols => by
      simp only [Specifier.actions, Specifier.denote]
      refine .silentAppend (silent_referNames protocols) (.silent ?_)
      split
      · exact List.forall_mem_singleton.mpr rfl
      · exact List.forall_mem_nil _
  | .other _ protocols => by
      simp only [Specifier.actions, Specifier.denote]
      exact .silent (silent_referNames protocols)

theorem Specifier.denotesAll (c : Context) : ∀ ss : List Specifier,
    Denotes (Specifier.actionsOfAll c ss) (Specifier.denoteAll c ss)
  | [] => by
      rw [Specifier.actionsOfAll, Specifier.denoteAll]
      exact .nil
  | s :: rest => by
      rw [Specifier.actionsOfAll, Specifier.denoteAll]
      exact (Specifier.denotes c s).append (Specifier.denotesAll c rest)

theorem Enumerator.denotesAll (c : Context) (type : String) : ∀ es : List Enumerator,
    Denotes (Enumerator.actionsOfAll c type es) (Enumerator.denoteAll c es)
  | [] => by
      rw [Enumerator.actionsOfAll, Enumerator.denoteAll]
      exact .nil
  | ⟨_, none, _⟩ :: rest => by
      rw [Enumerator.actionsOfAll, Enumerator.denoteAll]
      exact Enumerator.denotesAll c type rest
  | ⟨e, some name, value⟩ :: rest => by
      rw [Enumerator.actionsOfAll, Enumerator.denoteAll]
      exact ((denotes_declareVariable c _ _ _ _).append (Node.denotesOption c value)).append
        (Enumerator.denotesAll c type rest)

theorem TypeName.denotesOption (c : Context) : ∀ t : Option TypeName,
    Denotes (TypeName.actionsOfOption c t) (TypeName.denoteOption c t)
  | none => by
      rw [TypeName.actionsOfOption, TypeName.denoteOption]
      exact .nil
  | some ⟨_, specifiers⟩ => by
      rw [TypeName.actionsOfOption, TypeName.denoteOption]
      exact Specifier.denotesAll c specifiers

theorem InitDeclarator.denotesAll (c : Context) (d : Declaration) : ∀ ds : List InitDeclarator,
    Denotes (InitDeclarator.actionsOfAll c d ds) (InitDeclarator.denoteAll c d ds)
  | [] => by
      rw [InitDeclarator.actionsOfAll, InitDeclarator.denoteAll]
      exact .nil
  | ⟨_, none, value⟩ :: rest => by
      simp only [InitDeclarator.actionsOfAll, InitDeclarator.denoteAll, List.nil_append]
      exact (Node.denotesOption c value).append (InitDeclarator.denotesAll c d rest)
  | ⟨_, some ⟨_, none, _, _⟩, value⟩ :: rest => by
      simp only [InitDeclarator.actionsOfAll, InitDeclarator.denoteAll, List.nil_append]
      exact (Node.denotesOption c value).append (InitDeclarator.denotesAll c d rest)
  | ⟨_, some ⟨e, some ident, nested, parameters⟩, value⟩ :: rest => by
      rw [InitDeclarator.actionsOfAll.eq_def, InitDeclarator.denoteAll]
      refine (((denotes_declareOne c d ident _).append ?_).append
        (Node.denotesOption c value)).append (InitDeclarator.denotesAll c d rest)
      split
      · exact Parameter.denotesTypesOption c parameters
      · exact .nil

theorem Declaration.denotesHeader (c : Context) : ∀ d : Option Declaration,
    Denotes (Declaration.localActionsOfOption c d) (Declaration.denoteHeader c d)
  | none => by
      rw [Declaration.localActionsOfOption, Declaration.denoteHeader]
      exact .nil
  | some ⟨e, _, specifiers, declarators⟩ => by
      rw [Declaration.localActionsOfOption, Declaration.denoteHeader]
      exact (Specifier.denotesAll c specifiers).append
        (InitDeclarator.denotesHeaderAll c e _ declarators)

theorem InitDeclarator.denotesHeaderAll (c : Context) (owner : Excerpt) (type : Option String) :
    ∀ ds : List InitDeclarator, Denotes (InitDeclarator.localActionsOfAll c owner type ds)
      (InitDeclarator.denoteHeaderAll c ds)
  | [] => by
      rw [InitDeclarator.localActionsOfAll, InitDeclarator.denoteHeaderAll]
      exact .nil
  | ⟨_, declarator, value⟩ :: rest => by
      rw [InitDeclarator.localActionsOfAll, InitDeclarator.denoteHeaderAll]
      exact ((denotes_declareBound c declarator owner type).append
        (Node.denotesOption c value)).append (InitDeclarator.denotesHeaderAll c owner type rest)

theorem Parameter.denotesAll (c : Context) : ∀ ps : List Parameter,
    Denotes (Parameter.actionsOfAll c ps) (Parameter.denoteAll c ps)
  | [] => by
      rw [Parameter.actionsOfAll, Parameter.denoteAll]
      exact .nil
  | ⟨e, specifiers, declarator⟩ :: rest => by
      rw [Parameter.actionsOfAll.eq_def, Parameter.denoteAll]
      refine .append (.appendSilent (Specifier.denotesAll c specifiers) ?_)
        (Parameter.denotesAll c rest)
      split
      · exact silent_pair rfl rfl
      · exact List.forall_mem_nil _

theorem Parameter.denotesOption (c : Context) : ∀ ps : Option (List Parameter),
    Denotes (Parameter.actionsOfOption c ps) (Parameter.denoteOption c ps)
  | none => by
      rw [Parameter.actionsOfOption, Parameter.denoteOption]
      exact .nil
  | some ps => by
      rw [Parameter.actionsOfOption, Parameter.denoteOption]
      exact Parameter.denotesAll c ps

theorem Parameter.denotesHeader (c : Context) : ∀ p : Parameter,
    Denotes (p.localActions c) (p.denoteHeader c)
  | ⟨e, specifiers, declarator⟩ => by
      rw [Parameter.localActions, Parameter.denoteHeader]
      exact (Specifier.denotesAll c specifiers).append (denotes_declareBound c declarator e _)

theorem Parameter.denotesHeaderAll (c : Context) : ∀ ps : List Parameter,
    Denotes (Parameter.localActionsOfAll c ps) (Parameter.denoteHeaderAll c ps)
  | [] => by
      rw [Parameter.localActionsOfAll, Parameter.denoteHeaderAll]
      exact .nil
  | p :: rest => by
      rw [Parameter.localActionsOfAll, Parameter.denoteHeaderAll]
      exact (Parameter.denotesHeader c p).append (Parameter.denotesHeaderAll c rest)

theorem Parameter.denotesHeaderOption (c : Context) : ∀ p : Option Parameter,
    Denotes (Parameter.localActionsOfOption c p) (Parameter.denoteHeaderOption c p)
  | none => by
      rw [Parameter.localActionsOfOption, Parameter.denoteHeaderOption]
      exact .nil
  | some p => by
      rw [Parameter.localActionsOfOption, Parameter.denoteHeaderOption]
      exact Parameter.denotesHeader c p

theorem Parameter.denotesTypes (c : Context) : ∀ ps : List Parameter,
    Denotes (Parameter.specifierActionsOfAll c ps) (Parameter.denoteAll c ps)
  | [] => by
      rw [Parameter.specifierActionsOfAll, Parameter.denoteAll]
      exact .nil
  | ⟨_, specifiers, _⟩ :: rest => by
      rw [Parameter.specifierActionsOfAll, Parameter.denoteAll]
      exact (Specifier.denotesAll c specifiers).append (Parameter.denotesTypes c rest)

theorem Parameter.denotesTypesOption (c : Context) : ∀ ps : Option (List Parameter),
    Denotes (Parameter.specifierActionsOfOption c ps) (Parameter.denoteOption c ps)
  | none => by
      rw [Parameter.specifierActionsOfOption, Parameter.denoteOption]
      exact .nil
  | some ps => by
      rw [Parameter.specifierActionsOfOption, Parameter.denoteOption]
      exact Parameter.denotesTypes c ps

theorem Ivar.denotesAll (c : Context) (className : String) : ∀ ivars : List Ivar,
    Denotes (Ivar.actionsOfAll c className ivars) (Ivar.denoteAll c ivars)
  | [] => by
      rw [Ivar.actionsOfAll, Ivar.denoteAll]
      exact .nil
  | ⟨e, specifiers, names, visibility⟩ :: rest => by
      rw [Ivar.actionsOfAll, Ivar.denoteAll]
      exact ((Specifier.denotesAll c specifiers).appendSilent
        (silent_declareIvar className _)).append (Ivar.denotesAll c className rest)

theorem KeywordDeclarator.denotesTypes (c : Context) : ∀ ks : List KeywordDeclarator,
    Denotes (KeywordDeclarator.typeActions c ks) (KeywordDeclarator.denoteAll c ks)
  | [] => by
      rw [KeywordDeclarator.typeActions, KeywordDeclarator.denoteAll]
      exact .nil
  | ⟨_, _, typeName, _⟩ :: rest => by
      rw [KeywordDeclarator.typeActions, KeywordDeclarator.denoteAll]
      exact (TypeName.denotesOption c typeName).append (KeywordDeclarator.denotesTypes c rest)

theorem KeywordDeclarator.denotesAll (c : Context) (method : Key) : ∀ ks : List KeywordDeclarator,
    Denotes (KeywordDeclarator.actionsOfAll c method ks) (KeywordDeclarator.denoteAll c ks)
  | [] => by
      rw [KeywordDeclarator.actionsOfAll, KeywordDeclarator.denoteAll]
      exact .nil
  | ⟨e, _, typeName, name⟩ :: rest => by
      rw [KeywordDeclarator.actionsOfAll.eq_def, KeywordDeclarator.denoteAll]
      refine .append (.appendSilent (TypeName.denotesOption c typeName) ?_)
        (KeywordDeclarator.denotesAll c method rest)
      split
      · exact List.forall_mem_nil _
      · exact silent_pair rfl rfl

theorem MessageSelector.denotesOption (c : Context) : ∀ s : Option MessageSelector,
    Denotes (MessageSelector.actionsOfOption c s) (MessageSelector.denoteOption c s)
  | none => by
      rw [MessageSelector.actionsOfOption, MessageSelector.denoteOption]
      exact .nil
  | some ⟨_, _, keywords⟩ => by
      rw [MessageSelector.actionsOfOption, MessageSelector.denoteOption]
      exact KeywordArgument.denotesAll c keywords

theorem KeywordArgument.denotesAll (c : Context) : ∀ ks : List KeywordArgument,
    Denotes (KeywordArgument.actionsOfAll c ks) (KeywordArgument.denoteAll c ks)
  | [] => by
      rw [KeywordArgument.actionsOfAll, KeywordArgument.denoteAll]
      exact .nil
  | ⟨_, _, argument⟩ :: rest => by
      rw [KeywordArgument.actionsOfAll, KeywordArgument.denoteAll]
      exact (Node.denotesOption c argument).append (KeywordArgument.denotesAll c rest)

end

end SymbolGraph
