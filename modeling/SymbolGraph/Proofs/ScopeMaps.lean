import Mathlib.Data.Finmap
import SymbolGraph.Proofs.Scopes

/-!
# `Proofs.ScopeMaps` — the open scopes answer as a list of maps does

Operations are carried out one after the other, on the open scopes and on a plain list of
finite maps, innermost first:

    push           an empty map in front                  the depth
    pop            the first map dropped                  the depth
                   (never the last one)                   that it is refused
    declare        the first map written to               the depth
    lookup         nothing                                the first binding found

The answers are the same, whatever the operations are.  `Scopes.maps` is the view that ties
the two: one equation for each operation, and by induction one for a run.

The frames from the cursor on are no part of the view, and the view would not show what is
left in them.  Closing a scope empties its frame, so they are EMPTY in every state that
operations lead to (`Scopes.Tidy`): no name of a closed scope is kept anywhere.
-/

namespace SymbolGraph

/-! ## Operations -/

/-- What can be asked of the open scopes. -/
inductive ScopeOp where
  | push
  | pop
  | declare (b : Binding)
  | lookup (name : String)
  deriving Repr, DecidableEq

/-- What is answered: how many scopes are open after a change, the variable looked up, or
why a scope is not closed. -/
inductive ScopeAnswer where
  | depth (n : Nat)
  | found (b : Option Binding)
  | refused (e : ScopeError)
  deriving Repr, DecidableEq

namespace ScopeOp

/-- Operations one after the other: the state behind them, and the answers. -/
def runAll {σ : Type} (step : ScopeOp → σ → σ × ScopeAnswer) :
    List ScopeOp → σ → σ × List ScopeAnswer
  | [], s => (s, [])
  | op :: ops, s =>
      let (next, answer) := step op s
      let (last, answers) := runAll step ops next
      (last, answer :: answers)

/-- Where each step keeps an invariant and agrees with another one through a view, so do
runs. -/
theorem runAll_view {σ τ : Type} {I : σ → Prop} {view : σ → τ}
    {step : ScopeOp → σ → σ × ScopeAnswer} {step' : ScopeOp → τ → τ × ScopeAnswer}
    (hkeeps : ∀ op s, I s → I (step op s).1)
    (hview : ∀ op s, I s → Prod.map view id (step op s) = step' op (view s)) :
    ∀ (ops : List ScopeOp) (s : σ), I s →
      I (runAll step ops s).1 ∧
      Prod.map view id (runAll step ops s) = runAll step' ops (view s) := by
  intro ops
  induction ops with
  | nil => exact fun _ hs => ⟨hs, rfl⟩
  | cons op ops ih =>
      intro s hs
      obtain ⟨hlast, hrun⟩ := ih _ (hkeeps op s hs)
      refine ⟨hlast, ?_⟩
      rw [runAll, runAll, ← hview op s hs]
      exact congrArg (fun run => (run.1, (step op s).2 :: run.2)) hrun

end ScopeOp

/-- An operation on the open scopes. -/
def Scopes.perform : ScopeOp → Scopes → Scopes × ScopeAnswer
  | .push, s => (s.push, .depth s.push.depth)
  | .pop, s =>
      match s.pop? with
      | some closed => (closed, .depth closed.depth)
      | none => (s, .refused .fileScope)
  | .declare b, s => (s.declare b, .depth (s.declare b).depth)
  | .lookup name, s => (s, .found (s.lookup name))

/-- The maps of the open scopes, the innermost first. -/
abbrev MapStack := List (Finmap fun _ : String => Binding)

/-- An operation on a list of maps. -/
def MapStack.perform : ScopeOp → MapStack → MapStack × ScopeAnswer
  | .push, maps => (∅ :: maps, .depth (maps.length + 1))
  | .pop, _ :: next :: rest => (next :: rest, .depth (rest.length + 1))
  | .pop, maps => (maps, .refused .fileScope)
  | .declare b, top :: rest => (top.insert b.name b :: rest, .depth (rest.length + 1))
  | .declare _, [] => ([], .depth 0)
  | .lookup name, maps => (maps, .found (maps.findSome? (Finmap.lookup name)))

/-! ## The view -/

namespace Dict

variable {α : Type}

/-- The pairs as a finite map; of two with one key the first counts. -/
def toMap : Dict α → Finmap fun _ : String => α
  | [] => ∅
  | (key, value) :: rest => (toMap rest).insert key value

theorem lookup_toMap (key : String) (d : Dict α) : (toMap d).lookup key = d.get? key := by
  induction d with
  | nil => exact Finmap.lookup_empty key
  | cons pair rest ih =>
      obtain ⟨first, value⟩ := pair
      rw [toMap, get?]
      by_cases h : first = key
      · rw [if_pos h, h]
        exact Finmap.lookup_insert _
      · rw [if_neg h, Finmap.lookup_insert_of_ne _ (Ne.symm h)]
        exact ih

theorem toMap_set (key : String) (value : α) (d : Dict α) :
    toMap (d.set key value) = (toMap d).insert key value := by
  refine Finmap.ext_lookup fun other => ?_
  rw [lookup_toMap, get?_set]
  by_cases h : key = other
  · rw [if_pos h, h, Finmap.lookup_insert]
  · rw [if_neg h, Finmap.lookup_insert_of_ne _ (Ne.symm h), lookup_toMap]

end Dict

namespace Scopes

/-- The frames in use as maps, the innermost first. -/
def maps (s : Scopes) : MapStack := s.stack.map Dict.toMap

/-- The cursor lies within the frames, and those from the cursor on are empty. -/
structure Tidy (s : Scopes) : Prop extends Valid s where
  empty : ∀ frame ∈ s.frames.toList.drop s.depth, frame = []

theorem initial_tidy : initial.Tidy := ⟨initial_valid, by decide⟩

variable {s : Scopes}

theorem perform_pop_of_le (h : s.depth ≤ 1) : perform .pop s = (s, .refused .fileScope) := by
  rw [perform, pop?, if_pos h]

theorem perform_pop_of_lt (h : 1 < s.depth) : perform .pop s = (s.pop, .depth s.pop.depth) := by
  rw [perform, pop, pop?, if_neg (by omega)]
  rfl

/-! ## One operation -/

section Step

variable (h : s.Tidy)
include h

theorem Tidy.push : s.push.Tidy := by
  refine ⟨push_valid h.toValid, ?_⟩
  intro frame hframe
  unfold Scopes.push at hframe
  split at hframe
  · next hfull =>
    have hnone : (s.frames.push []).toList.drop (s.depth + 1) = [] :=
      List.drop_eq_nil_of_le (by simp [hfull])
    exact absurd (hnone ▸ hframe) List.not_mem_nil
  · simp only [Array.toList_setIfInBounds, List.drop_set_of_lt (Nat.lt_succ_self _)] at hframe
    exact h.empty frame (List.drop_subset_drop_left _ (Nat.le_succ _) hframe)

theorem Tidy.pop : s.pop.Tidy := by
  refine ⟨pop_valid h.toValid, ?_⟩
  intro frame hframe
  unfold Scopes.pop pop? at hframe
  split at hframe
  · exact h.empty frame hframe
  · next hdeep =>
    -- The frame of the closed scope comes first, and has been emptied.
    have hbounded := h.bounded
    have hlt : s.depth - 1 < (s.frames.toList.set (s.depth - 1) []).length := by
      rw [List.length_set, Array.length_toList]
      omega
    have hsucc : s.depth - 1 + 1 = s.depth := by omega
    simp only [Option.getD_some, Array.toList_setIfInBounds, List.drop_eq_getElem_cons hlt,
      List.getElem_set_self, hsucc, List.drop_set_of_lt (show s.depth - 1 < s.depth by omega),
      List.mem_cons] at hframe
    exact hframe.elim id (h.empty frame)

theorem Tidy.declare (b : Binding) : (s.declare b).Tidy := by
  refine ⟨declare_valid h.toValid b, ?_⟩
  intro frame hframe
  have hpositive := h.positive
  simp only [Scopes.declare, Array.toList_modify] at hframe
  rw [List.drop_modify_of_lt _ _ _ _ (by omega)] at hframe
  exact h.empty frame hframe

theorem length_maps : s.maps.length = s.depth := by
  rw [maps, List.length_map, length_stack h.toValid]

/-- After a change the depth is answered, which is the number of maps. -/
theorem map_depth {m : MapStack} (hmaps : s.maps = m) :
    Prod.map maps id (s, ScopeAnswer.depth s.depth) = (m, .depth m.length) := by
  rw [← hmaps, length_maps h]
  rfl

/-- An operation keeps the frames tidy. -/
theorem Tidy.perform (op : ScopeOp) : (Scopes.perform op s).1.Tidy := by
  cases op with
  | push => exact h.push
  | pop =>
      rcases Nat.lt_or_ge 1 s.depth with hdeep | hflat
      · rw [perform_pop_of_lt hdeep]
        exact h.pop
      · rw [perform_pop_of_le hflat]
        exact h
  | declare b => exact h.declare b
  | lookup name => exact h

/-- Seen as maps, an operation does what it does on maps, and answers the same. -/
theorem maps_perform (op : ScopeOp) :
    Prod.map maps id (perform op s) = MapStack.perform op s.maps := by
  have hlength := length_maps h
  cases op with
  | push =>
      have hmaps : s.push.maps = ∅ :: s.maps := by rw [maps, stack_push h.toValid]; rfl
      exact map_depth h.push hmaps
  | pop =>
      rcases hopen : s.maps with _ | ⟨top, _ | ⟨next, rest⟩⟩
      · exact absurd (hlength ▸ h.positive) (by simp [hopen])
      · have hflat : s.depth ≤ 1 := by rw [← hlength, hopen]; rfl
        rw [perform_pop_of_le hflat]
        exact Prod.ext hopen rfl
      · have hdeep : 1 < s.depth := by
          rw [← hlength, hopen]
          exact Nat.succ_lt_succ (Nat.succ_pos _)
        have hmaps : s.pop.maps = next :: rest := by
          rw [maps, stack_pop h.toValid (length_stack h.toValid ▸ hdeep), List.map_tail, ← maps,
            hopen]
          rfl
        rw [perform_pop_of_lt hdeep]
        exact map_depth h.pop hmaps
  | declare b =>
      obtain ⟨top, rest, hstack, hdeclared⟩ := stack_declare h.toValid b
      have hmaps : s.maps = Dict.toMap top :: rest.map Dict.toMap := by rw [maps, hstack]; rfl
      have hafter : (s.declare b).maps =
          (Dict.toMap top).insert b.name b :: rest.map Dict.toMap := by
        rw [maps, hdeclared, List.map_cons, Dict.toMap_set]
      rw [hmaps]
      exact map_depth (h.declare b) hafter
  | lookup name =>
      have hfound : s.lookup name = s.maps.findSome? (Finmap.lookup name) := by
        rw [lookup_eq h.toValid, maps, List.findSome?_map]
        congr 1
        funext frame
        exact (Dict.lookup_toMap name frame).symm
      exact Prod.ext rfl (congrArg ScopeAnswer.found hfound)

end Step

/-! ## Any number of operations -/

/-- The state that operations lead to from the scope of the file alone. -/
def after (ops : List ScopeOp) : Scopes := (ScopeOp.runAll perform ops initial).1

/-- Operations on the open scopes answer as they do on a list of maps that starts with an
empty one, and leave as many scopes open as there are maps.  A scope is not closed exactly
if it is the only one, and then nothing changes.  The frames from the cursor on are empty. -/
theorem operations_answer_as_maps (ops : List ScopeOp) :
    (ScopeOp.runAll perform ops initial).2 = (ScopeOp.runAll MapStack.perform ops [∅]).2 ∧
    (after ops).depth = (ScopeOp.runAll MapStack.perform ops [∅]).1.length ∧
    (perform .pop (after ops) = (after ops, .refused .fileScope) ↔ (after ops).depth = 1) ∧
    ∀ frame ∈ (after ops).frames.toList.drop (after ops).depth, frame = [] := by
  obtain ⟨hrun, hview⟩ := ScopeOp.runAll_view (I := Tidy) (fun op _ h => h.perform op)
    (fun op _ h => maps_perform h op) ops initial initial_tidy
  have htidy : (after ops).Tidy := hrun
  obtain ⟨hmaps, hanswers⟩ := Prod.ext_iff.mp hview
  refine ⟨hanswers, ?_, ⟨fun h => ?_, fun h => perform_pop_of_le (Nat.le_of_eq h)⟩, htidy.empty⟩
  · rw [← length_maps htidy]
    exact congrArg List.length hmaps
  · rcases Nat.lt_or_ge 1 (after ops).depth with hdeep | hflat
    · rw [perform_pop_of_lt hdeep] at h
      exact absurd (congrArg Prod.snd h) nofun
    · exact Nat.le_antisymm hflat htidy.positive

/-- A variable of a closed block is found neither in its place nor in a new block. -/
theorem operations_answer_as_maps_reused :
    (ScopeOp.runAll MapStack.perform
      [.push, .declare ⟨"x", none, .global "x"⟩, .lookup "x", .pop, .pop, .push, .lookup "x"]
      [∅]).2 =
      [.depth 2, .depth 2, .found (some ⟨"x", none, .global "x"⟩), .depth 1, .refused .fileScope,
        .depth 2, .found none] ∧
    [] ∈ (after [.push, .declare ⟨"x", none, .global "x"⟩, .pop]).frames.toList.drop 1 ∧
    perform .pop (after [.push, .declare ⟨"x", none, .global "x"⟩, .pop]) =
      (after [.push, .declare ⟨"x", none, .global "x"⟩, .pop], .refused .fileScope) ∧
    ∀ frame ∈ (after [.push, .declare ⟨"x", none, .global "x"⟩, .pop]).frames.toList.drop 1,
      frame = [] := by
  obtain ⟨hanswers, -⟩ := operations_answer_as_maps
    [.push, .declare ⟨"x", none, .global "x"⟩, .lookup "x", .pop, .pop, .push, .lookup "x"]
  obtain ⟨-, -, hpop, hempty⟩ :=
    operations_answer_as_maps [.push, .declare ⟨"x", none, .global "x"⟩, .pop]
  exact ⟨hanswers.symm.trans (by decide), by decide, hpop.mpr (by decide), hempty⟩

end Scopes

end SymbolGraph
