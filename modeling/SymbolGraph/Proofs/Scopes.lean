import Mathlib.Data.List.Basic
import SymbolGraph.Proofs.Dict
import SymbolGraph.Scope

/-!
# `Proofs.Scopes` — the open scopes as a stack of maps

The frames in use, innermost first, are the STACK of the open scopes, and every
operation is the plain one on it:

    push       an empty map on top
    pop        the top taken off, unless only the file's map is left
    declare    the top written to
    lookup     the first map from the top that has the name

The frames above the cursor are not part of the stack; all that is asked of the
representation is that the cursor lies within the frames.
-/

namespace SymbolGraph.Scopes

/-- The frames in use, innermost first. -/
def stack (s : Scopes) : List Frame := (s.frames.toList.take s.depth).reverse

/-- The cursor lies within the frames, and that of the file is in use. -/
structure Valid (s : Scopes) : Prop where
  positive : 0 < s.depth
  bounded : s.depth ≤ s.frames.size

theorem initial_valid : initial.Valid := ⟨by decide, by decide⟩

variable {s : Scopes} (h : s.Valid)
include h

theorem length_stack : s.stack.length = s.depth := by
  have hbounded := h.bounded
  simp only [stack, List.length_reverse, List.length_take, Array.length_toList]
  omega

theorem push_valid : s.push.Valid := by
  have hbounded := h.bounded
  unfold push
  split
  · next hfull => exact ⟨Nat.succ_pos _, by simp [hfull]⟩
  · next hroom => exact ⟨Nat.succ_pos _, by simp only [Array.size_setIfInBounds]; omega⟩

theorem stack_push : s.push.stack = [] :: s.stack := by
  have hbounded := h.bounded
  unfold push
  split
  · next hfull =>
    simp [stack, hfull, List.take_of_length_le]
  · next hroom =>
    have hlt : s.depth < s.frames.toList.length := by simp only [Array.length_toList]; omega
    simp only [stack, Array.toList_setIfInBounds]
    rw [List.take_succ_eq_append_getElem (by simpa using hlt), List.reverse_append,
      List.take_set_of_le (Nat.le_refl _)]
    simp

theorem pop_valid : s.pop.Valid := by
  have hbounded := h.bounded
  unfold pop pop?
  split
  · exact h
  · next hdeep => exact ⟨by simp only [Option.getD_some]; omega,
      by simp only [Option.getD_some, Array.size_setIfInBounds]; omega⟩

theorem stack_pop (hdeep : 1 < s.stack.length) : s.pop.stack = s.stack.tail := by
  rw [length_stack h] at hdeep
  have hbounded := h.bounded
  have hlt : s.depth - 1 < s.frames.toList.length := by simp only [Array.length_toList]; omega
  have hsucc : s.depth = s.depth - 1 + 1 := by omega
  unfold pop pop?
  rw [if_neg (by omega), Option.getD_some]
  simp only [stack, Array.toList_setIfInBounds, List.take_set_of_le (Nat.le_refl _)]
  conv_rhs => rw [hsucc, List.take_succ_eq_append_getElem hlt, List.reverse_append]
  rfl

theorem declare_valid (b : Binding) : (s.declare b).Valid :=
  ⟨h.positive, by simpa [declare] using h.bounded⟩

theorem stack_declare (b : Binding) :
    ∃ top rest, s.stack = top :: rest ∧ (s.declare b).stack = Dict.set b.name b top :: rest := by
  have hbounded := h.bounded
  have hpositive := h.positive
  have hlt : s.depth - 1 < s.frames.toList.length := by simp only [Array.length_toList]; omega
  have hsucc : s.depth = s.depth - 1 + 1 := by omega
  refine ⟨s.frames.toList[s.depth - 1], (s.frames.toList.take (s.depth - 1)).reverse, ?_, ?_⟩
  · rw [stack]
    conv_lhs => rw [hsucc, List.take_succ_eq_append_getElem hlt, List.reverse_append]
    rfl
  · simp only [stack, declare, Array.toList_modify]
    conv_lhs => rw [hsucc]
    rw [List.take_succ_eq_append_getElem (by simpa using hlt), List.reverse_append]
    have hbelow : (s.frames.toList.take (s.depth - 1)).modify (s.depth - 1) (Dict.set b.name b) =
        s.frames.toList.take (s.depth - 1) :=
      List.modify_eq_self (List.length_take_le _ _)
    simp [List.take_modify, hbelow]

theorem lookup_eq (name : String) : s.lookup name = s.stack.findSome? (Dict.get? name) := by
  have hbelow : ∀ n, n ≤ s.frames.size →
      s.lookupBelow name n = (s.frames.toList.take n).reverse.findSome? (Dict.get? name) := by
    intro n
    induction n with
    | zero => exact fun _ => rfl
    | succ n ih =>
        intro hn
        have hlt : n < s.frames.toList.length := hn
        have htop : s.frames.getD n [] = s.frames.toList[n] := by
          simp [Array.getD, show n < s.frames.size from hn]
        rw [List.take_succ_eq_append_getElem hlt, List.reverse_append, lookupBelow, htop,
          ih (Nat.le_of_lt hlt)]
        rw [List.reverse_singleton, List.singleton_append, List.findSome?_cons]
        cases Dict.get? name s.frames.toList[n] <;> rfl
  exact hbelow s.depth h.bounded

end SymbolGraph.Scopes
