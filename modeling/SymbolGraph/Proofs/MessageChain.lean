import SymbolGraph.Proofs.Traversal

/-!
# `Proofs.MessageChain` — messages to the results of messages

The class of a receiver is asked of its text first; failing that, of the receiver of the
message that it is or wraps alone; and so on inwards, until nothing is left but to guess.
`Node.receivers` lays the texts of that search out beforehand.  Here the search is written
as it goes, two recursions inside one another:

    Nested n found     through wrappers down to a message, and what that is sent to
    Tells w t c n cls  the class of `n`, each time asking its text before going on

A derivation is a search that comes to an end.  Every construct has one, and it ends with the
class that the walk takes (`tells_iff`).

A CHAIN is a message to a message to ... to some receiver, with any number of wrappers around
each of them.  If no text on the way tells a class, each search in it ends like the search for
the last receiver.  The steps of a chain begin with its messages, so all of them are performed
in one state: all lead to the same class, or none leads anywhere.
-/

namespace SymbolGraph

/-! ## The search for a class -/

namespace Node

/-- The search goes on below the construct: it is a message, or a wrapper around one
construct. -/
def isOpen : Node → Bool
  | .messageExpression .. | .generic _ _ [_] => true
  | _ => false

/-- The receiver of the message that a construct is or wraps alone. -/
inductive Nested : Node → Option Node → Prop
  | message (e : Excerpt) (receiver : Option Node) (selector : Option MessageSelector) :
      Nested (.messageExpression e receiver selector) receiver
  | wrapper (e : Excerpt) (type : String) {child : Node} {found : Option Node} :
      Nested child found → Nested (.generic e type [child]) found
  | other {n : Node} : n.isOpen = false → Nested n none

theorem exists_nested : ∀ n : Node, ∃ found, n.Nested found
  | .messageExpression e receiver selector => ⟨receiver, .message e receiver selector⟩
  | .generic e type [child] =>
      have ⟨found, h⟩ := exists_nested child
      ⟨found, .wrapper e type h⟩
  | .generic _ _ [] | .generic _ _ (_ :: _ :: _) => ⟨none, .other rfl⟩
  | .unit .. | .inclusion .. | .classInterface .. | .categoryInterface .. | .classImplementation ..
  | .protocolDeclaration .. | .forwardDeclaration .. | .methodDeclaration .. | .methodDefinition ..
  | .propertyDeclaration .. | .declaration .. | .functionDefinition .. | .compoundStatement ..
  | .forStatement .. | .catchClause .. | .blockExpression .. | .identifier .. | .memberAccess ..
  | .castExpression .. => ⟨none, .other rfl⟩

theorem receiversBelow_of_not_isOpen {n : Node} (h : n.isOpen = false) : n.receiversBelow = [] := by
  unfold isOpen at h
  unfold receiversBelow
  split <;> simp_all

/-- Below a construct stand the receivers that its search comes to. -/
theorem Nested.receiversBelow_eq {n : Node} {found : Option Node} (h : n.Nested found) :
    n.receiversBelow = (found.map receivers).getD [] := by
  induction h with
  | message e receiver selector =>
      cases receiver with
      | none => rfl
      | some r => rw [receiversBelow]; rfl
  | wrapper e type _ ih => rw [receiversBelow, ih]
  | other hopen => exact receiversBelow_of_not_isOpen hopen

end Node

namespace Walker

variable (w : Walker) (t : Symbols) (c : Context)

/-- The text tells no class by itself: it is neither `self` nor `super`, and no tier has a
type for it. -/
structure Untold (text : String) : Prop where
  notSelf : text ≠ "self"
  notSuper : text ≠ "super"
  untyped : present (w.typeOf t c text) = none

instance (text : String) : Decidable (w.Untold t c text) :=
  decidable_of_iff (text ≠ "self" ∧ text ≠ "super" ∧ present (w.typeOf t c text) = none)
    ⟨fun ⟨a, b, c⟩ => ⟨a, b, c⟩, fun ⟨a, b, c⟩ => ⟨a, b, c⟩⟩

/-- The search for the class of a receiver ends, with the class or without one. -/
inductive Tells : Node → Option String → Prop
  | own {n : Node} : n.excerpt.text = "self" ∨ n.excerpt.text = "super" → Tells n c.className
  | typed {n : Node} {type : String} : n.excerpt.text ≠ "self" → n.excerpt.text ≠ "super" →
      present (w.typeOf t c n.excerpt.text) = some type → Tells n (some type)
  | nested {n receiver : Node} {found : Option String} : w.Untold t c n.excerpt.text →
      n.Nested (some receiver) → Tells receiver found → Tells n found
  | guessed {n : Node} : w.Untold t c n.excerpt.text → n.Nested none →
      isClassLike n.excerpt.text = true → Tells n (some n.excerpt.text)
  | unknown {n : Node} : w.Untold t c n.excerpt.text → n.Nested none →
      isClassLike n.excerpt.text = false → Tells n none

variable {w t c}

theorem Untold.classOf_cons {text : String} (h : w.Untold t c text) (inner : List String) :
    w.classOf t c (text :: inner) =
      if inner.isEmpty then (if isClassLike text then some text else none)
      else w.classOf t c inner := by
  rw [classOf, if_neg (by simp [h.notSelf, h.notSuper]), h.untyped]

theorem Untold.classOf_nested {n receiver : Node} (h : w.Untold t c n.excerpt.text)
    (hnested : n.Nested (some receiver)) :
    w.classOf t c n.receivers = w.classOf t c receiver.receivers := by
  rw [Node.receivers, hnested.receiversBelow_eq, h.classOf_cons]
  rfl

theorem Untold.classOf_bare {n : Node} (h : w.Untold t c n.excerpt.text)
    (hnested : n.Nested none) : w.classOf t c n.receivers =
      if isClassLike n.excerpt.text then some n.excerpt.text else none := by
  rw [Node.receivers, hnested.receiversBelow_eq, h.classOf_cons]
  rfl

theorem Tells.eq_classOf {n : Node} {found : Option String} (h : w.Tells t c n found) :
    found = w.classOf t c n.receivers := by
  induction h with
  | own htext => rw [Node.receivers, classOf, if_pos htext]
  | typed hself hsuper htype =>
      rw [Node.receivers, classOf, if_neg (by simp [hself, hsuper]), htype]
  | nested huntold hnested _ ih => rw [ih, huntold.classOf_nested hnested]
  | guessed huntold hnested hclass => rw [huntold.classOf_bare hnested, if_pos hclass]
  | unknown huntold hnested hclass =>
      rw [huntold.classOf_bare hnested, if_neg (by simp [hclass])]

/-- Each search ends: what it goes on to has fewer receivers below. -/
theorem exists_tells (n : Node) : ∃ found, w.Tells t c n found := by
  by_cases hown : n.excerpt.text = "self" ∨ n.excerpt.text = "super"
  · exact ⟨_, .own hown⟩
  obtain ⟨hself, hsuper⟩ := not_or.mp hown
  cases htype : present (w.typeOf t c n.excerpt.text) with
  | some type => exact ⟨_, .typed hself hsuper htype⟩
  | none =>
      have huntold : w.Untold t c n.excerpt.text := ⟨hself, hsuper, htype⟩
      obtain ⟨found, hnested⟩ := n.exists_nested
      cases found with
      | none =>
          by_cases hclass : isClassLike n.excerpt.text
          · exact ⟨_, .guessed huntold hnested hclass⟩
          · exact ⟨_, .unknown huntold hnested (by simpa using hclass)⟩
      | some receiver =>
          have hfewer : receiver.receiversBelow.length < n.receiversBelow.length := by
            rw [hnested.receiversBelow_eq]
            exact Nat.lt_succ_self _
          obtain ⟨found, hfound⟩ := exists_tells receiver
          exact ⟨found, .nested huntold hnested hfound⟩
termination_by n.receiversBelow.length

/-- Each search ends, and with the class that the walk takes. -/
theorem tells_iff {n : Node} {found : Option String} :
    w.Tells t c n found ↔ found = w.classOf t c n.receivers := by
  refine ⟨Tells.eq_classOf, fun h => ?_⟩
  obtain ⟨other, hother⟩ := exists_tells (w := w) (t := t) (c := c) n
  rw [h, ← hother.eq_classOf]
  exact hother

end Walker

/-! ## Chains -/

/-- One message of a chain, with the wrappers around it, the outermost first. -/
structure Link where
  excerpt : Excerpt
  selector : Option MessageSelector
  wrappers : List (Excerpt × String)

namespace Link

/-- The texts of the message and of its wrappers. -/
def texts (l : Link) : List String := l.excerpt.text :: l.wrappers.map (·.1.text)

/-- A construct inside wrappers, each of which holds nothing else. -/
def wrap (n : Node) : List (Excerpt × String) → Node
  | [] => n
  | (e, type) :: rest => .generic e type [wrap n rest]

/-- The message to a receiver, inside its wrappers. -/
def around (l : Link) (receiver : Node) : Node :=
  wrap (.messageExpression l.excerpt (some receiver) l.selector) l.wrappers

end Link

/-- The first message is sent to the result of the second, and so on; the last one is sent to
the receiver given. -/
def Node.chain (receiver : Node) (links : List Link) : Node :=
  links.foldr Link.around receiver

namespace Link

theorem nested_wrap {n : Node} {found : Option Node} (h : n.Nested found) :
    ∀ wrappers : List (Excerpt × String), (wrap n wrappers).Nested found
  | [] => h
  | (e, type) :: rest => .wrapper e type (nested_wrap h rest)

theorem nested_around (l : Link) (receiver : Node) : (l.around receiver).Nested (some receiver) :=
  nested_wrap (.message _ _ _) l.wrappers

theorem text_around_mem (l : Link) (receiver : Node) :
    (l.around receiver).excerpt.text ∈ l.texts := by
  unfold around texts
  cases l.wrappers with
  | nil => exact List.mem_cons_self
  | cons first rest => simp [wrap, Node.excerpt]

theorem actions_wrap (c : Context) (n : Node) :
    ∀ wrappers : List (Excerpt × String), (wrap n wrappers).actions c = n.actions c
  | [] => rfl
  | (e, type) :: rest => by
      rw [wrap, Node.actions, Node.actionsOfAll, Node.actionsOfAll, List.append_nil,
        actions_wrap c n rest]

/-- The step of the message to a receiver; a message without a selector has none. -/
def steps (c : Context) (receiver : Node) (l : Link) : List Action :=
  l.selector.toList.map fun s => .send c receiver.receivers s.anchor s.name

theorem actions_around (c : Context) (l : Link) (receiver : Node) :
    (l.around receiver).actions c = l.steps c receiver ++
      (receiver.actions c ++ MessageSelector.actionsOfOption c l.selector) := by
  obtain ⟨e, selector, wrappers⟩ := l
  rw [around, actions_wrap]
  cases selector <;> simp [steps, Node.actions, Node.actionsOfOption]

end Link

/-! ## The class of a chain -/

section

variable {w : Walker} {t : Symbols} {c : Context} {receiver : Node}

/-- Where no text of the chain tells a class, its search ends like that of the receiver. -/
theorem classOf_chain : ∀ {links : List Link},
    (∀ l ∈ links, ∀ text ∈ l.texts, w.Untold t c text) →
      w.classOf t c (receiver.chain links).receivers = w.classOf t c receiver.receivers
  | [], _ => rfl
  | l :: inner, h => by
      have huntold := h l List.mem_cons_self _ (l.text_around_mem (receiver.chain inner))
      have hinner := classOf_chain fun k hk => h k (List.mem_cons_of_mem _ hk)
      exact (huntold.classOf_nested (l.nested_around _)).trans hinner

/-- The steps of the messages of a chain, the outermost first. -/
def chainSteps (c : Context) (receiver : Node) : List Link → List Action
  | [] => []
  | l :: inner => l.steps c (receiver.chain inner) ++ chainSteps c receiver inner

theorem actions_chain (c : Context) (receiver : Node) : ∀ links : List Link,
    (receiver.chain links).actions c = chainSteps c receiver links ++ (receiver.actions c ++
      links.reverse.flatMap fun l => MessageSelector.actionsOfOption c l.selector)
  | [] => by simp [Node.chain, chainSteps]
  | l :: inner => by
      have hinner := actions_chain c receiver inner
      have haround := l.actions_around c (receiver.chain inner)
      rw [Node.chain, List.foldr_cons, ← Node.chain, haround, hinner, chainSteps]
      simp

/-! ## Performing the messages of a chain -/

/-- What a message to a class writes; without a class, nothing. -/
def MessageSelector.written (file : String) (owner : Option String) (s : MessageSelector) :
    List Emission :=
  (Walker.present owner).toList.map fun owner => .refer file s.anchor (.member owner s.name)

/-- A message changes neither the state of the walk nor the tables. -/
theorem emitAll_send (file : String) (receivers : List String) (s : MessageSelector)
    (rest : List Action) :
    Act.emitAll t (Act.ofActions file (.send c receivers s.anchor s.name :: rest) w) =
      s.written file (w.classOf t c receivers) ++
        Act.emitAll t (Act.ofActions file rest w) := by
  have hsend : ∀ path, Action.send c receivers s.anchor s.name ≠ .inclusion path := fun _ => nofun
  rw [Act.ofActions_cons file hsend]
  rfl

theorem emitAll_chainSteps (file : String) (rest : List Action) : ∀ {links : List Link},
    (∀ l ∈ links, ∀ text ∈ l.texts, w.Untold t c text) →
      Act.emitAll t (Act.ofActions file (chainSteps c receiver links ++ rest) w) =
        (links.filterMap Link.selector).flatMap
            (MessageSelector.written file (w.classOf t c receiver.receivers)) ++
          Act.emitAll t (Act.ofActions file rest w)
  | [], _ => rfl
  | l :: inner, h => by
      have hinner : ∀ k ∈ inner, ∀ text ∈ k.texts, w.Untold t c text := fun k hk =>
        h k (List.mem_cons_of_mem _ hk)
      have ih := emitAll_chainSteps file rest hinner
      cases hselector : l.selector with
      | none => simpa [chainSteps, Link.steps, hselector] using ih
      | some s =>
          simp only [chainSteps, Link.steps, hselector, Option.toList_some, List.map_cons,
            List.map_nil, List.cons_append, List.nil_append, List.filterMap_cons,
            List.flatMap_cons, List.append_assoc]
          rw [emitAll_send, classOf_chain hinner, ih]

/-- In a chain of messages whose texts tell no class, the search for the class of every receiver
ends, and ends with the class of the innermost one.  The first that a walk writes there are the
references of the messages, the outermost first: one for each selector, all to that class, or
none at all. -/
theorem chain_shares_class (file : String) (w : Walker) (t : Symbols) (c : Context)
    (receiver : Node) (links : List Link)
    (h : ∀ l ∈ links, ∀ text ∈ l.texts, w.Untold t c text) :
    ∃ owner : Option String,
      (∀ inner, inner <:+ links → ∀ found,
        w.Tells t c (receiver.chain inner) found ↔ found = owner) ∧
      Act.emitAll t (Act.ofActions file ((receiver.chain links).actions c) w) =
        (links.filterMap Link.selector).flatMap (MessageSelector.written file owner) ++
          Act.emitAll t (Act.ofActions file (receiver.actions c ++
            links.reverse.flatMap fun l => MessageSelector.actionsOfOption c l.selector) w) := by
  refine ⟨w.classOf t c receiver.receivers, fun inner hinner found => ?_, ?_⟩
  · rw [Walker.tells_iff, classOf_chain fun l hl => h l (hinner.subset hl)]
  · rw [actions_chain, emitAll_chainSteps file _ h]

end

/-! A message in parentheses, as the receiver of another one:

    [([Baz alloc]) init]
-/

def initSelector : MessageSelector := ⟨⟨"init", 15, 18⟩, some ⟨"init", 15, 18⟩, []⟩

def allocSelector : MessageSelector := ⟨⟨"alloc", 7, 11⟩, some ⟨"alloc", 7, 11⟩, []⟩

def bazReceiver : Node := .identifier ⟨"Baz", 3, 5⟩ (some ⟨"Baz", 3, 5⟩)

def bazLinks : List Link :=
  [⟨⟨"[([Baz alloc]) init]", 0, 19⟩, some initSelector, []⟩,
    ⟨⟨"[Baz alloc]", 2, 12⟩, some allocSelector,
      [(⟨"([Baz alloc])", 1, 13⟩, "parenthesized_expression")]⟩]

theorem chain_shares_class_wrapped :
    (∀ l ∈ bazLinks, ∀ text ∈ l.texts, ({} : Walker).Untold {} {} text) ∧
    Act.emitAll {} (Act.ofActions "a.m" ((bazReceiver.chain bazLinks).actions {}) {}) =
      [.refer "a.m" initSelector.anchor (.member "Baz" "init:"),
        .refer "a.m" allocSelector.anchor (.member "Baz" "alloc:"),
        .refer "a.m" bazReceiver.excerpt (.global "Baz")] := by
  have huntold : ∀ l ∈ bazLinks, ∀ text ∈ l.texts, ({} : Walker).Untold {} {} text := by decide
  obtain ⟨owner, hclass, hemitted⟩ :=
    chain_shares_class "a.m" {} {} {} bazReceiver bazLinks huntold
  have hguessed : ({} : Walker).Tells {} {} bazReceiver (some "Baz") :=
    .guessed (by decide) (.other rfl) (by decide)
  have howner : some "Baz" = owner := (hclass [] (List.nil_suffix) _).mp hguessed
  rw [hemitted, ← howner]
  exact ⟨huntold, by decide⟩

end SymbolGraph
