import Mathlib.Data.List.Induction
import Mathlib.Data.List.Infix
import SymbolGraph.Proofs.Act
import SymbolGraph.Proofs.Scopes

/-!
# `Proofs.Lexical` — names are bound as they stand in the text

A local is in scope from its declaration on, until its scope is closed; of the locals
of a name that are in scope, the last one declared binds the name.  This can be read
off the steps of a tree without running them (`Action.Binds`).

The walk finds the same local: by induction on the steps behind a declaration, from
their END on.  Going back over a step that closes a scope, what was visible lies one
scope deeper, and over one that opens a scope, one scope less deep; so the statement is
about a depth at which to look (`Action.Reaches`, `Walker.lookup_after`).
-/

namespace SymbolGraph

/-! ## Which local a name means, read off the steps -/

namespace Action

/-- The step opens a scope. -/
def opens : Action → Bool
  | .openClass | .openBlock | .openRoutine => true
  | _ => false

/-- The step closes a scope. -/
def closes : Action → Bool
  | .closeScope | .closeRoutine => true
  | _ => false

/-- The identifier of the local that a step declares. -/
def local? : Action → Option Excerpt
  | .declareLocal _ ident _ _ _ => some ident
  | _ => none

/-- The step declares a local of the name. -/
def declares (name : String) (a : Action) : Bool := a.local?.any (·.text == name)

/-- The scope in which the steps begin is open after each of them. -/
def StaysOpen (steps : List Action) : Prop :=
  ∀ part, part <+: steps → part.countP closes ≤ part.countP opens

/-- A local of the name, declared right before the steps, is what the name means right
behind them: its scope is still open, and that of no later local of the name is. -/
structure Binds (name : String) (steps : List Action) : Prop where
  stays : StaysOpen steps
  latest : ∀ d after, d :: after <:+ steps → d.declares name → ¬ StaysOpen after

instance (steps : List Action) : Decidable (StaysOpen steps) :=
  decidable_of_iff (∀ part ∈ steps.inits, part.countP closes ≤ part.countP opens)
    (by simp only [StaysOpen, List.mem_inits])

theorem binds_iff {name : String} {steps : List Action} : Binds name steps ↔ StaysOpen steps ∧
    ∀ tail ∈ steps.tails, ∀ d ∈ tail.head?, d.declares name → ¬ StaysOpen tail.tail := by
  constructor
  · rintro ⟨hstays, hlatest⟩
    refine ⟨hstays, fun tail htail d hd => ?_⟩
    have htail : d :: tail.tail <:+ steps := by
      rw [List.cons_head?_tail hd]
      exact (List.mem_tails _ _).mp htail
    exact hlatest d tail.tail htail
  · rintro ⟨hstays, hlatest⟩
    refine ⟨hstays, fun d after hafter => ?_⟩
    exact hlatest (d :: after) ((List.mem_tails _ _).mpr hafter) d rfl

instance (name : String) (steps : List Action) : Decidable (Binds name steps) :=
  decidable_of_iff _ binds_iff.symm

/-- After the steps, the scope in which they begin is open below `depth` others. -/
def Reaches (depth : Nat) (steps : List Action) : Prop :=
  StaysOpen steps ∧ depth + steps.countP closes ≤ steps.countP opens

/-- How deep a scope lies before a step that lies `depth` deep behind it. -/
def depthBefore (depth : Nat) (a : Action) : Nat :=
  if a.opens then depth - 1 else if a.closes then depth + 1 else depth

variable {steps : List Action} {a : Action} {depth : Nat}

theorem staysOpen_concat : StaysOpen (steps ++ [a]) ↔
    StaysOpen steps ∧ (steps ++ [a]).countP closes ≤ (steps ++ [a]).countP opens := by
  constructor
  · intro h
    exact ⟨fun part hpart => h part (hpart.trans (List.prefix_append _ _)), h _ List.prefix_rfl⟩
  · rintro ⟨h, hall⟩ part hpart
    rcases List.prefix_concat_iff.mp hpart with rfl | hpart
    · exact hall
    · exact h part hpart

theorem reaches_zero : Reaches 0 steps ↔ StaysOpen steps := by
  constructor
  · exact And.left
  · intro h
    have hall := h steps List.prefix_rfl
    exact ⟨h, by omega⟩

theorem closes_of_opens (h : a.opens = true) : a.closes = false := by
  cases a with
  | openClass | openBlock | openRoutine => rfl
  | _ => cases h

theorem reaches_concat : Reaches depth (steps ++ [a]) ↔ Reaches (a.depthBefore depth) steps := by
  have hstep : Reaches depth (steps ++ [a]) ↔ StaysOpen steps ∧
      steps.countP closes + (if a.closes then 1 else 0) ≤
        steps.countP opens + (if a.opens then 1 else 0) ∧
      depth + (steps.countP closes + if a.closes then 1 else 0) ≤
        steps.countP opens + if a.opens then 1 else 0 := by
    rw [Reaches, staysOpen_concat, List.countP_append, List.countP_append, List.countP_singleton,
      List.countP_singleton, and_assoc]
  rw [hstep, Reaches, depthBefore]
  refine and_congr_right fun hopen => ?_
  have hall := hopen steps List.prefix_rfl
  cases hopens : a.opens with
  | true =>
      rw [closes_of_opens hopens]
      simp only [if_true, Bool.false_eq_true, if_false]
      omega
  | false =>
      cases hcloses : a.closes with
      | true =>
          simp only [if_true, Bool.false_eq_true, if_false]
          omega
      | false =>
          simp only [Bool.false_eq_true, if_false]
          omega

end Action

open SymbolGraph.Action

namespace Walker

/-- What a step does to the open scopes. -/
theorem scopes_moved (a : Action) (w : Walker) :
    (a.opens = true ∧ (a.moved w).scopes = w.scopes.push) ∨
    (a.opens = false ∧ a.closes = true ∧ (a.moved w).scopes = w.scopes.pop) ∨
    (∃ c ident owner kind type, a = .declareLocal c ident owner kind type ∧
      (a.moved w).scopes =
        w.scopes.declare ⟨ident.text, type, (c.key ident.text).inBlock w.block⟩) ∨
    (a.opens = false ∧ a.closes = false ∧ (a.moved w).scopes = w.scopes) := by
  cases a with
  | openClass | openBlock | openRoutine => exact Or.inl ⟨rfl, rfl⟩
  | closeScope | closeRoutine => exact Or.inr (Or.inl ⟨rfl, rfl, rfl⟩)
  | declareLocal c ident owner kind type =>
      exact Or.inr (Or.inr (Or.inl ⟨c, ident, owner, kind, type, rfl, rfl⟩))
  | implement =>
      refine Or.inr (Or.inr (Or.inr ⟨rfl, rfl, ?_⟩))
      unfold moved perform
      dsimp only
      split <;> rfl
  | _ => exact Or.inr (Or.inr (Or.inr ⟨rfl, rfl, rfl⟩))

theorem moved_valid {w : Walker} (h : w.scopes.Valid) (a : Action) : (a.moved w).scopes.Valid := by
  obtain ⟨-, hmoved⟩ | ⟨-, -, hmoved⟩ | ⟨c, ident, owner, kind, type, -, hmoved⟩ | ⟨-, -, hmoved⟩ :=
    scopes_moved a w
  · exact hmoved ▸ Scopes.push_valid h
  · exact hmoved ▸ Scopes.pop_valid h
  · exact hmoved ▸ Scopes.declare_valid h _
  · exact hmoved ▸ h

theorem after_valid {w : Walker} (h : w.scopes.Valid) (steps : List Action) :
    (w.after steps).scopes.Valid := by
  induction steps generalizing w with
  | nil => exact h
  | cons a rest ih => exact ih (moved_valid h a)

/-- The innermost of the lower scopes that has a name, after a step. -/
theorem lookup_moved {w : Walker} (hvalid : w.scopes.Valid) {a : Action} {name : String}
    {depth : Nat} {b : Binding} (hother : depth = 0 → a.declares name = false)
    (h : (w.scopes.stack.drop (a.depthBefore depth)).findSome? (Dict.get? name) = some b) :
    ((a.moved w).scopes.stack.drop depth).findSome? (Dict.get? name) = some b := by
  obtain ⟨hopens, hmoved⟩ | ⟨hopens, hcloses, hmoved⟩ | ⟨c, ident, owner, kind, type, rfl, hmoved⟩ |
    ⟨hopens, hcloses, hmoved⟩ := scopes_moved a w
  · rw [depthBefore, if_pos hopens] at h
    rw [hmoved, Scopes.stack_push hvalid]
    cases depth with
    | zero => exact h
    | succ depth => exact h
  · rw [depthBefore, if_neg (by simp [hopens]), if_pos hcloses] at h
    have hdeep : 1 < w.scopes.stack.length := by
      by_contra hshallow
      rw [List.drop_eq_nil_of_le (by omega)] at h
      cases h
    rw [hmoved, Scopes.stack_pop hvalid hdeep, List.drop_tail]
    exact h
  · obtain ⟨top, rest, hstack, hdeclared⟩ := Scopes.stack_declare hvalid
      ⟨ident.text, type, (c.key ident.text).inBlock w.block⟩
    rw [depthBefore, if_neg nofun, if_neg nofun, hstack] at h
    rw [hmoved, hdeclared]
    cases depth with
    | zero =>
        have hname : ident.text ≠ name := by simpa [declares, local?] using hother rfl
        simpa [List.findSome?_cons, Dict.get?_set, hname] using h
    | succ depth => exact h
  · rw [depthBefore, if_neg (by simp [hopens]), if_neg (by simp [hcloses])] at h
    rw [hmoved]
    exact h

/-- A scope that the steps reach shows what it showed at their start, if no local of the
name is declared in it, or in a scope inside it that the steps reach as well. -/
theorem lookup_after {w : Walker} (hvalid : w.scopes.Valid) {name : String} {b : Binding}
    (hstart : w.scopes.stack.findSome? (Dict.get? name) = some b) (steps : List Action) :
    ∀ depth, Reaches depth steps →
      (∀ d after, d :: after <:+ steps → d.declares name → ¬ Reaches depth after) →
      ((w.after steps).scopes.stack.drop depth).findSome? (Dict.get? name) = some b := by
  induction steps using List.reverseRecOn with
  | nil =>
      rintro depth ⟨-, hdepth⟩ -
      obtain rfl : depth = 0 := by simpa using hdepth
      exact hstart
  | append_singleton steps a ih =>
      intro depth hreaches hlatest
      have hvalid' := after_valid hvalid steps
      rw [after_append]
      refine lookup_moved hvalid' (fun hzero => ?_) (ih _ (reaches_concat.mp hreaches) ?_)
      · by_contra hdeclares
        rw [Bool.not_eq_false] at hdeclares
        refine hlatest a [] (List.suffix_append _ _) hdeclares ⟨?_, by simp [hzero]⟩
        intro part hpart
        simp [List.prefix_nil.mp hpart]
      · intro d after hsuffix hdeclares hreach
        refine hlatest d (after ++ [a]) ?_ hdeclares (reaches_concat.mpr hreach)
        obtain ⟨front, rfl⟩ := hsuffix
        exact ⟨front, by simp⟩

/-- A name that a local binds is found under the key of the local. -/
theorem lookup_of_binds {w : Walker} (hvalid : w.scopes.Valid) {c : Context}
    {ident owner : Excerpt} {kind : Kind} {type : Option String} {steps : List Action}
    (h : Binds ident.text steps) :
    (w.after (.declareLocal c ident owner kind type :: steps)).scopes.lookup ident.text =
      some ⟨ident.text, type, (c.key ident.text).inBlock w.block⟩ := by
  have hvalid' := moved_valid hvalid (.declareLocal c ident owner kind type)
  have hstart : ((declareLocal c ident owner kind type).moved w).scopes.stack.findSome?
      (Dict.get? ident.text) = some ⟨ident.text, type, (c.key ident.text).inBlock w.block⟩ := by
    obtain ⟨top, rest, -, hdeclared⟩ := Scopes.stack_declare hvalid
      ⟨ident.text, type, (c.key ident.text).inBlock w.block⟩
    have hmoved : ((declareLocal c ident owner kind type).moved w).scopes.stack =
        Dict.set ident.text ⟨ident.text, type, (c.key ident.text).inBlock w.block⟩ top :: rest :=
      hdeclared
    rw [hmoved, List.findSome?_cons, Dict.get?_set, if_pos rfl]
  rw [Scopes.lookup_eq (after_valid hvalid _)]
  exact lookup_after hvalid' hstart steps 0 (reaches_zero.mpr h.stays)
    fun d after hsuffix hdeclares hreach => h.latest d after hsuffix hdeclares
      (reaches_zero.mp hreach)

/-- Inside a routine, the number of the block counts the blocks opened so far. -/
theorem after_block {steps : List Action} (h : .openRoutine ∉ steps) (w : Walker) :
    (w.after steps).block = w.block + steps.count .openBlock := by
  induction steps generalizing w with
  | nil => rfl
  | cons a rest ih =>
      rw [List.mem_cons, not_or] at h
      obtain ⟨ha, hrest⟩ := h
      have hmoved := moved_block a w
      have hafter : (w.after (a :: rest)).block = ((a.moved w).after rest).block := rfl
      rw [hafter, ih hrest, hmoved, List.count_cons]
      cases a with
      | openBlock =>
          simp only [nextBlock, beq_self_eq_true, if_true]
          omega
      | openRoutine => exact absurd rfl ha
      | _ => simp [nextBlock]

/-- As long as none is opened, the number of the block stays. -/
theorem after_block_eq {steps : List Action}
    (h : ∀ a ∈ steps, a ≠ .openBlock ∧ a ≠ .openRoutine) (w : Walker) :
    (w.after steps).block = w.block := by
  have hcount : steps.count .openBlock = 0 := List.count_eq_zero.mpr fun ha => (h _ ha).1 rfl
  rw [after_block (fun ha => (h _ ha).2 rfl), hcount, Nat.add_zero]

end Walker

end SymbolGraph
