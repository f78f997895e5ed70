import SymbolGraph.Proofs.SelectorName

/-!
# `Proofs.CompoundReceiver` — messages to an expression in parentheses

The text of a receiver such as `(a + b)` is no name, so a message to it leads nowhere
unless the receiver only wraps another message.  Whether it does is asked of the tree that
has been read, and reading leaves out what can hold no name: a literal, a string, a
comment.  An expression of two operands is a wrapper there if just one of them is left:

    ([A make] + x)   generic [generic [message, identifier]]    no receiver below
    ([A make] + 1)   generic [generic [message]]                the receiver `A` below

`receiversBelow_compound` says what reading makes of the operands, `classOf_compound` what
the walk makes of that, and the last theorem puts the two together.
-/

namespace SymbolGraph

namespace Cst

open Reading

/-! ## Reading -/

/-- The named nodes right inside a node, comments left out. -/
def constituents (c : Cst) : List Cst :=
  c.children.filter fun d => d.head.named && d.head.type != "comment"

/-- What is read of some nodes: those that can hold no name are left out. -/
def kept (src : Octets) (cs : List Cst) : List Node := cs.filterMap fun c => (c.reading src).node

/-- The receiver is an expression of two operands in parentheses. -/
structure Compound (src : Octets) (receiver left right : Cst) : Prop where
  named : receiver.head.named
  type : receiver.head.type = "parenthesized_expression"
  text : (receiver.text src).toList.head? = some '('
  operands : ∃ inner, receiver.constituents = [inner] ∧ inner.constituents = [left, right] ∧
    (inner.head.type = "binary_expression" ∨ inner.head.type = "subscript_expression")

variable {src : Octets}

/-- Comments are not read. -/
theorem node_comment {c : Cst} (h : ¬ (c.head.named && c.head.type != "comment")) :
    (c.reading src).node = none := by
  cases c with
  | node head children =>
    refine if_pos ?_
    by_cases hnamed : head.named
    · have htype : head.type = "comment" := by simpa [Cst.head, hnamed] using h
      simp [hnamed, htype, skippedTypes]
    · simp [hnamed]

theorem nodes_children (c : Cst) : nodes (c.reading src).children = kept src c.constituents := by
  rw [children_reading, nodes, Reading.named, List.filter_map, List.filterMap_map, kept,
    constituents, List.filterMap_filter, List.filterMap_filter]
  refine List.filterMap_congr fun d _ => ?_
  simp only [Function.comp_apply, head_reading]
  by_cases hnamed : d.head.named
  · rw [if_pos hnamed]
    split
    · rfl
    · case isFalse h => exact node_comment h
  · simp [hnamed]

/-- A node in parentheses or between operands is read as what is read inside it. -/
theorem node_generic {c : Cst} (hnamed : c.head.named)
    (htype : c.head.type = "parenthesized_expression" ∨ c.head.type = "binary_expression" ∨
      c.head.type = "subscript_expression") :
    (c.reading src).node =
      some (.generic (c.head.excerpt src) c.head.type (kept src c.constituents)) := by
  have hskipped : c.head.type ∉ skippedTypes := by
    rcases htype with h | h | h <;> rw [h] <;> decide
  have hconstruct : construct src c.head (c.head.excerpt src) (c.reading src).names
      (c.reading src).specifiers (c.reading src).children =
        .generic (c.head.excerpt src) c.head.type (nodes (c.reading src).children) := by
    rcases htype with h | h | h <;> simp [construct, h, Text.startsWith]
  rw [node_reading hnamed hskipped, hconstruct, nodes_children]

end Cst

/-- A construct that wraps others stands for the only one, if there is one. -/
theorem Node.receiversBelow_generic (e : Excerpt) (type : String) (ns : List Node) :
    (Node.generic e type ns).receiversBelow =
      match ns with
      | [n] => n.receiversBelow
      | _ => [] := by
  match ns with
  | [] => rfl
  | [n] => rw [Node.receiversBelow]
  | _ :: _ :: _ => rfl

namespace Cst

open Reading

variable {src : Octets} {receiver left right : Cst}

/-- Below the receiver stand the receivers below an operand, if that is the only one kept. -/
theorem receiversBelow_compound (h : receiver.Compound src left right) :
    ∃ r, (receiver.reading src).node = some r ∧ r.excerpt.text = receiver.text src ∧
      r.receiversBelow =
        match kept src [left, right] with
        | [operand] => operand.receiversBelow
        | _ => [] := by
  obtain ⟨inner, hinner, hoperands, htype⟩ := h.operands
  have hnamed : inner.head.named := by
    have hmem : inner ∈ receiver.constituents := by rw [hinner]; exact List.mem_singleton.mpr rfl
    have hkeep := (List.mem_filter.mp hmem).2
    exact (Bool.and_eq_true _ _ ▸ hkeep).1
  refine ⟨_, node_generic h.named (.inl h.type), rfl, ?_⟩
  have hbelow : kept src [inner] =
      [.generic (inner.head.excerpt src) inner.head.type (kept src [left, right])] := by
    rw [kept, List.filterMap_cons, node_generic hnamed (.inr htype), hoperands]
    rfl
  rw [hinner, hbelow]
  exact (Node.receiversBelow_generic _ _ [_]).trans (Node.receiversBelow_generic _ _ _)

/-! ## Walking -/

/-- A text in parentheses that has no type tells no class by itself. -/
theorem classOf_compound {w : Walker} {t : Symbols} {c : Context} {text : String}
    (htext : text.toList.head? = some '(') (htype : w.typeOf t c text = none)
    (below : List String) : w.classOf t c (text :: below) = w.classOf t c below := by
  have hself : ¬ (text = "self" ∨ text = "super") := by
    rintro (rfl | rfl) <;> exact absurd htext (by decide)
  have hclass : Walker.isClassLike text = false := by
    unfold Walker.isClassLike
    split
    · rfl
    case h_2 head rest heq =>
      rw [heq, List.head?_cons, Option.some.injEq] at htext
      subst htext
      rfl
  rw [Walker.classOf, if_neg hself, htype, hclass]
  cases below with
  | nil => rfl
  | cons receiver below => rfl

/-- A message to an expression of two operands in parentheses, whose text no tier has a
type for.  It leads to a class just if reading leaves one operand, and this is or wraps a
message to something whose class can be told. -/
theorem reference_of_compound_receiver {message : Cst} {behind : List Cst}
    (hmessage : message.Message receiver behind) (h : receiver.Compound src left right) :
    ∃ r selector, (message.reading src).node =
        some (.messageExpression (message.head.excerpt src) (some r) selector) ∧
      ∀ (c : Context) (s : MessageSelector), selector = some s →
        (Node.messageExpression (message.head.excerpt src) (some r) selector).actions c =
            .send c r.receivers s.anchor s.name ::
              (r.actions c ++ MessageSelector.actionsOfOption c (some s)) ∧
        ∀ (file : String) (w : Walker) (t : Symbols), w.typeOf t c (receiver.text src) = none →
          ∀ e, e ∈ (perform file (.send c r.receivers s.anchor s.name) w t).2.2 ↔
            ∃ operand owner, kept src [left, right] = [operand] ∧
              Walker.present (w.classOf t c operand.receiversBelow) = some owner ∧
              e = .refer file s.anchor (.member owner s.name) := by
  obtain ⟨r, hr, htext, hbelow⟩ := receiversBelow_compound h
  refine ⟨r, _, by rw [node_behind hmessage, hr], fun c s hs => ⟨?_, fun file w t htype e => ?_⟩⟩
  · rw [hs, Node.actions]
    rfl
  have hclass : w.classOf t c r.receivers = w.classOf t c r.receiversBelow := by
    rw [Node.receivers, htext, classOf_compound h.text htype]
  simp only [perform, hclass, hbelow, List.mem_map, Option.mem_toList]
  constructor
  · rintro ⟨owner, howner, rfl⟩
    split at howner
    case h_1 operand hkept => exact ⟨operand, owner, hkept, howner, rfl⟩
    case h_2 => simp [Walker.classOf, Walker.present] at howner
  · rintro ⟨operand, owner, hkept, howner, rfl⟩
    exact ⟨owner, by rw [hkept]; exact howner, rfl⟩

/-! A sum with a message on its left and an operand of the given type and text on its right:

    [([A make] + x) run]
-/

def sumBytes (operand : String) : Octets :=
  Text.Utf8.encode ("[([A make] + " ++ operand ++ ") run]")

def sumLeft : Cst :=
  branch "message_expression" 2 10
    [leaf "[" 2 3 false, leaf "identifier" 3 4 true, leaf "identifier" 5 9 true,
      leaf "]" 9 10 false]

def sumReceiver (type : String) : Cst :=
  branch "parenthesized_expression" 1 15
    [leaf "(" 1 2 false,
      branch "binary_expression" 2 14 [sumLeft, leaf "+" 11 12 false, leaf type 13 14 true],
      leaf ")" 14 15 false]

def sumBehind : List Cst := [leaf "identifier" 16 19 true, leaf "]" 19 20 false]

def sumMessage (type : String) : Cst :=
  branch "message_expression" 0 20 (leaf "[" 0 1 false :: sumReceiver type :: sumBehind)

theorem sumMessage_message (type : String) :
    (sumMessage type).Message (sumReceiver type) sumBehind :=
  ⟨rfl, rfl, ⟨[leaf "[" 0 1 false], rfl, by decide⟩, rfl,
    by simp [sumReceiver, branch, isBracket, Cst.head]⟩

/-- With a name on the right, both operands are kept and the message leads nowhere. -/
theorem reference_of_compound_receiver_sum :
    (sumReceiver "identifier").Compound (sumBytes "x") sumLeft (leaf "identifier" 13 14 true) ∧
    ∃ r s, ((sumMessage "identifier").reading (sumBytes "x")).node =
        some (.messageExpression ((sumMessage "identifier").head.excerpt (sumBytes "x"))
          (some r) (some s)) ∧
      (perform "a.m" (.send {} r.receivers s.anchor s.name) {} {}).2.2 = [] := by
  have hcompound : (sumReceiver "identifier").Compound (sumBytes "x") sumLeft
      (leaf "identifier" 13 14 true) :=
    ⟨rfl, rfl, by decide +kernel, _, rfl, rfl, .inl rfl⟩
  obtain ⟨r, selector, hnode, hsteps⟩ :=
    reference_of_compound_receiver (sumMessage_message "identifier") hcompound
  obtain ⟨s, hs⟩ : ∃ s, selector = some s := by
    rw [node_behind (sumMessage_message "identifier")] at hnode
    injection hnode with hnode
    injection hnode with _ _ hselector
    exact ⟨_, hselector.symm⟩
  refine ⟨hcompound, r, s, by rw [hnode, hs], ?_⟩
  refine List.eq_nil_iff_forall_not_mem.mpr fun e he => ?_
  obtain ⟨operand, owner, hkept, -⟩ :=
    ((hsteps {} s hs).2 "a.m" {} {} rfl e).mp he
  have hboth : (kept (sumBytes "x") [sumLeft, leaf "identifier" 13 14 true]).length = 2 := by
    decide +kernel
  rw [hkept] at hboth
  cases hboth

/-- With a number on the right, the message is taken for one to what its left operand is
sent to. -/
theorem sum_with_literal_leads_to_class :
    (sumMessage "number_literal").Message (sumReceiver "number_literal") sumBehind ∧
    (sumReceiver "number_literal").Compound (sumBytes "1") sumLeft
      (leaf "number_literal" 13 14 true) ∧
    ({} : Walker).typeOf {} {} ((sumReceiver "number_literal").text (sumBytes "1")) = none ∧
    ∃ e r s, ((sumMessage "number_literal").reading (sumBytes "1")).node =
        some (.messageExpression e (some r) (some s)) ∧
      (perform "a.m" (.send {} r.receivers s.anchor s.name) {} {}).2.2 =
        [.refer "a.m" s.anchor (.member "A" "run:")] :=
  ⟨sumMessage_message _, ⟨rfl, rfl, by decide +kernel, _, rfl, rfl, .inl rfl⟩, rfl,
    _, _, _, rfl, by decide +kernel⟩

end Cst

end SymbolGraph
