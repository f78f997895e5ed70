import SymbolGraph.Proofs.Definitions
import SymbolGraph.Proofs.Reached

/-!
# `Proofs.SelfReference` — every definition refers to itself, once

A definition is written together with a reference at its own identifier.  The store
keeps the two under different rules: a definition goes when another one is written under
its path, while a reference stays, and is kept once however often it is written.  So the
law has two halves, and each needs its own view of the store:

    from a definition to its reference   of the definitions that were ever WRITTEN, one
                                         of the references is the same
    from a reference to its definition   the definition was written, so that it stands
                                         or was overwritten

`Store.SelfReferring` states both for what was written, where no collision can break
them; what stands is part of it.
-/

namespace SymbolGraph

/-- Definitions and their references to themselves come in pairs, and no other
reference claims to stand at a definition. -/
inductive Emission.Paired : List Emission → Prop
  | nil : Paired []
  | definition (d : Definition) {es : List Emission} : Paired es →
      Paired (.definition d :: .reference d.selfReference :: es)
  | occurrence (file : String) (span : Excerpt) (key : Key) {es : List Emission} : Paired es →
      Paired (.refer file span key :: es)
  | skipped (reason : SkipReason) (start : Int) {es : List Emission} : Paired es →
      Paired (.skipped reason start :: es)

open Emission.Paired in
theorem Act.emissions_paired (a : Act) (t : Symbols) : Emission.Paired (a.emissions t) := by
  obtain ⟨file, w, action⟩ := a
  have hoptional : ∀ (found : Option String) (ident : Excerpt) (key : String → Key),
      Emission.Paired (found.toList.map fun owner => .refer file ident (key owner)) := by
    intro found ident key
    cases found with
    | none => exact nil
    | some owner => exact occurrence _ _ _ nil
  unfold emissions perform
  cases action with
  | define | declareLocal => exact definition _ nil
  | implement =>
      dsimp only
      split
      · exact occurrence _ _ _ nil
      · exact definition _ nil
  | refer | read => exact occurrence _ _ _ nil
  | access | send => exact hoptional _ _ _
  | skip => exact skipped _ _ nil
  | _ => exact nil

namespace Reference

/-- The reference stands at the identifier of the definition, as its own. -/
def marks (r : Reference) (d : Definition) : Bool :=
  r.isDef && r.key.path == d.key.path && r.file == d.file && r.start == d.identStart &&
    r.stop == d.identStop

/-- The symbol lives in the unit itself. -/
def IsInner (r : Reference) : Prop := r.repo = none ∧ r.unitType = none ∧ r.unit = none

theorem marks_iff_same {r : Reference} (h : r.IsInner) (d : Definition) :
    r.marks d = r.same d.selfReference := by
  obtain ⟨hrepo, htype, hunit⟩ := h
  rw [Bool.eq_iff_iff, same_iff]
  simp only [marks, Definition.selfReference, Bool.and_eq_true, beq_iff_eq]
  grind

theorem same_of_same {a b c : Reference} (ha : a.same c = true) (hb : b.same c = true) :
    a.same b = true := by
  rw [same_iff] at *
  grind

theorem pairwise_addTo {refs : List Reference} (h : refs.Pairwise fun a b => ¬ a.same b)
    (r : Reference) : (addTo refs r).Pairwise fun a b => ¬ a.same b := by
  unfold addTo
  split
  · exact h
  · next hnew =>
    refine List.pairwise_append.mpr ⟨h, List.pairwise_singleton _ _, fun x hx y hy hsame => ?_⟩
    rw [List.mem_singleton.mp hy] at hsame
    exact hnew (List.any_eq_true.mpr ⟨x, hx, hsame⟩)

end Reference

namespace Store

/-- Definitions and references to themselves correspond, counting those definitions that
were overwritten. -/
structure SelfReferring (s : Store) : Prop where
  marked : ∀ d ∈ s.written, ∃ r ∈ s.references, r.same d.selfReference = true
  owned : ∀ r ∈ s.references, r.isDef = true → ∃ d ∈ s.written, r = d.selfReference
  inner : ∀ r ∈ s.references, r.IsInner
  once : s.references.Pairwise fun a b => ¬ a.same b

namespace SelfReferring

variable {s : Store}

theorem empty : SelfReferring {} where
  marked _ h := absurd h List.not_mem_nil
  owned _ h := absurd h List.not_mem_nil
  inner _ h := absurd h List.not_mem_nil
  once := .nil

theorem define (h : s.SelfReferring) (d : Definition) :
    (s.recordAll [.definition d, .reference d.selfReference]).SelfReferring := by
  have hwritten := written_recordAll [.definition d, .reference d.selfReference] s
  have hrefs : (s.recordAll [.definition d, .reference d.selfReference]).references =
      Reference.addTo s.references d.selfReference := references_recordAll _ s
  refine ⟨?_, ?_, ?_, hrefs ▸ Reference.pairwise_addTo h.once _⟩
  · intro e he
    rw [hrefs]
    rcases List.mem_cons.mp (hwritten.mem_iff.mp he) with rfl | he
    · exact Reference.exists_same_addTo _ _
    · obtain ⟨r, hr, hsame⟩ := h.marked e he
      exact ⟨r, Reference.subset_addTo _ _ hr, hsame⟩
  · intro r hr hdef
    rw [hrefs] at hr
    rcases Reference.mem_addTo hr with hr | rfl
    · obtain ⟨e, he, rfl⟩ := h.owned r hr hdef
      exact ⟨e, hwritten.mem_iff.mpr (List.mem_cons_of_mem _ he), rfl⟩
    · exact ⟨d, hwritten.mem_iff.mpr List.mem_cons_self, rfl⟩
  · intro r hr
    rw [hrefs] at hr
    rcases Reference.mem_addTo hr with hr | rfl
    · exact h.inner r hr
    · exact ⟨rfl, rfl, rfl⟩

theorem refer (h : s.SelfReferring) {r : Reference} (hinner : r.IsInner) (hdef : r.isDef = false) :
    (s.recordAll [.reference r]).SelfReferring := by
  have hwritten := written_recordAll [.reference r] s
  have hrefs : (s.recordAll [.reference r]).references = Reference.addTo s.references r :=
    references_recordAll _ s
  refine ⟨?_, ?_, ?_, hrefs ▸ Reference.pairwise_addTo h.once _⟩
  · intro e he
    obtain ⟨x, hx, hsame⟩ := h.marked e (hwritten.mem_iff.mp he)
    exact ⟨x, hrefs ▸ Reference.subset_addTo _ _ hx, hsame⟩
  · intro x hx hxdef
    rw [hrefs] at hx
    rcases Reference.mem_addTo hx with hx | rfl
    · obtain ⟨e, he, rfl⟩ := h.owned x hx hxdef
      exact ⟨e, hwritten.mem_iff.mpr he, rfl⟩
    · rw [hdef] at hxdef
      cases hxdef
  · intro x hx
    rw [hrefs] at hx
    rcases Reference.mem_addTo hx with hx | rfl
    · exact h.inner x hx
    · exact hinner

theorem recordAll {es : List Emission} (hes : Emission.Paired es) (h : s.SelfReferring) :
    (s.recordAll es).SelfReferring := by
  induction hes generalizing s with
  | nil => exact h
  | definition d _ ih => exact ih (h.define d)
  | occurrence _ _ _ _ ih => exact ih (h.refer ⟨rfl, rfl, rfl⟩ rfl)
  | skipped _ _ _ ih => exact ih h

theorem kept : Run.Kept fun store _ => store.SelfReferring where
  act pass a store t h := by
    cases pass with
    | collecting => exact h
    | emitting => exact h.recordAll (a.emissions_paired t)
  flush h := ⟨h.marked, h.owned, h.inner, h.once⟩

/-- Whatever marks a definition is the one reference that was kept for it. -/
theorem filter_marks (h : s.SelfReferring) {d : Definition} (hd : d ∈ s.written) :
    ∃ r, s.references.filter (·.marks d) = [r] := by
  have hsame : s.references.filter (·.marks d) = s.references.filter (·.same d.selfReference) :=
    List.filter_congr fun r hr => Reference.marks_iff_same (h.inner r hr) d
  obtain ⟨r, hr, hmarks⟩ := h.marked d hd
  have hmem : r ∈ s.references.filter (·.same d.selfReference) := List.mem_filter.mpr ⟨hr, hmarks⟩
  have honce := h.once.filter (·.same d.selfReference)
  rw [hsame]
  cases hrefs : s.references.filter (·.same d.selfReference) with
  | nil => rw [hrefs] at hmem; cases hmem
  | cons x rest =>
      rw [hrefs] at honce
      refine ⟨x, congrArg _ (List.eq_nil_iff_forall_not_mem.mpr fun y hy => ?_)⟩
      have hkept : ∀ z ∈ x :: rest, z.same d.selfReference = true := by
        intro z hz
        rw [← hrefs] at hz
        exact (List.mem_filter.mp hz).2
      exact (List.pairwise_cons.mp honce).1 y hy
        (Reference.same_of_same (hkept x List.mem_cons_self) (hkept y (List.mem_cons_of_mem _ hy)))

end SelfReferring

end Store

namespace Session

/-- In every state that a run can come to, each definition of the store has exactly one
reference to itself, and each reference that says it is one belongs to a definition that
stands or was overwritten. -/
theorem definitions_refer_to_themselves {s : Session} {run : Run} (h : s.Reached run) :
    (∀ d ∈ run.store.definitions, ∃ r, run.store.references.filter (·.marks d) = [r]) ∧
    (∀ r ∈ run.store.references, r.isDef = true →
      ∃ d, (d ∈ run.store.definitions ∨ ∃ c ∈ run.store.collisions, c.previous = d) ∧
        r = d.selfReference) := by
  have hself : run.store.SelfReferring := h.keeps Store.SelfReferring.kept .empty
  constructor
  · exact fun d hd => hself.filter_marks (List.mem_append_left _ hd)
  · intro r hr hdef
    obtain ⟨d, hd, hrd⟩ := hself.owned r hr hdef
    exact ⟨d, (List.mem_append.mp hd).imp_right List.mem_map.mp, hrd⟩

/-- The body of a method is met before its announcement, so that its definition is
overwritten; then a file cannot be read. -/
def brokenUnit : Session :=
  { mutualUnit with
    twoPass := false
    sources := { mutualUnit.sources with
      size := fun path => if path = "gone.m" then .error (.system "gone") else .ok 100 } }

/-- The state that the broken unit is left in. -/
def brokenRun : Run := (brokenUnit.process ["foo.h", "user.m", "gone.m"] {}).run

theorem definitions_refer_to_themselves_broken :
    brokenUnit.Reached brokenRun ∧ brokenRun.store.flushed = false ∧
      brokenRun.store.definitions.length = 4 ∧ brokenRun.store.collisions.length = 1 ∧
      ∀ d ∈ brokenRun.store.definitions,
        ∃ r, brokenRun.store.references.filter (·.marks d) = [r] := by
  have hreached : brokenUnit.Reached brokenRun :=
    Reached.fresh.process brokenUnit.sources ["foo.h", "user.m", "gone.m"]
  refine ⟨hreached, ?_, ?_, ?_, (definitions_refer_to_themselves hreached).1⟩ <;> decide +kernel

end Session

end SymbolGraph
