import Mathlib.Data.List.Perm.Basic
import SymbolGraph.Proofs.Definitions
import SymbolGraph.Proofs.VisitOrder

/-!
# `Proofs.Tally` — the report adds up to what was written

A walk counts what its own acts write (`walk_counts`), whatever is visited on the way.
So the files of a report share out all that is written:

    the counts of a file        what the acts of the file write           `Finished.counts`
    all that is written         what is written for one of the files      `flatMap_emitFor_perm`

The store keeps less.  Of the definitions it keeps the last one under each path, and a
collision for each one that was there before; of the references the first of those that
are the same.  What is missing are the REPEATS.
-/

namespace SymbolGraph

open Step

/-! ## Counting -/

def Emission.isSkipped : Emission → Bool
  | .skipped .. => true
  | _ => false

/-- How much of each kind there is. -/
def Counts.ofAll (es : List Emission) : Counts where
  definitions := (es.filterMap Emission.definition?).length
  references := (es.filterMap Emission.reference?).length
  skipped := es.countP Emission.isSkipped

theorem Counts.foldl_add : ∀ (es : List Emission) (n : Counts), es.foldl Counts.add n =
    ⟨n.definitions + (ofAll es).definitions, n.references + (ofAll es).references,
      n.skipped + (ofAll es).skipped⟩
  | [], _ => rfl
  | e :: es, n => by
      rw [List.foldl_cons, foldl_add es]
      cases e <;> simp [Counts.add, ofAll, List.filterMap_cons, List.countP_cons,
        Emission.definition?, Emission.reference?, Emission.isSkipped] <;> omega

theorem flatMap_ite_of_nodup {α β : Type} [DecidableEq α] {a : α} (bs : List β) :
    ∀ {xs : List α}, xs.Nodup → a ∈ xs → xs.flatMap (fun x => if a = x then bs else []) = bs
  | [], _, ha => absurd ha List.not_mem_nil
  | x :: xs, hnodup, ha => by
      obtain ⟨hnew, hnodup⟩ := List.nodup_cons.mp hnodup
      rw [List.flatMap_cons]
      rcases List.mem_cons.mp ha with rfl | ha
      · have hnone : xs.flatMap (fun x => if a = x then bs else []) = [] :=
          List.flatMap_eq_nil_iff.mpr fun x hx => if_neg fun heq : a = x => hnew (heq ▸ hx)
        rw [if_pos rfl, hnone, List.append_nil]
      · have hne : a ≠ x := fun heq => hnew (heq ▸ ha)
        rw [if_neg hne, List.nil_append, flatMap_ite_of_nodup bs hnodup ha]

/-- The files share out what is written. -/
theorem Act.flatMap_emitFor_perm {files : List String} (hfiles : files.Nodup) :
    ∀ {acts : List Act} {t : Symbols}, (∀ a ∈ acts, a.file ∈ files) →
      (files.flatMap (emitFor · t acts)).Perm (emitAll t acts)
  | [], t, _ => by simp [emitFor, emitAll]
  | a :: rest, t, h => by
      have hown := flatMap_ite_of_nodup (a.emissions t) hfiles (h a List.mem_cons_self)
      have hrest := flatMap_emitFor_perm hfiles (t := a.action.declared t)
        fun b hb => h b (List.mem_cons_of_mem _ hb)
      simp only [emitFor, emitAll]
      refine (List.flatMap_append_perm _ _ _).symm.trans ?_
      rw [hown]
      exact hrest.append_left _

/-! ## References that repeat -/

namespace Reference

theorem same_trans {a b c : Reference} (h : a.same b = true) (h' : b.same c = true) :
    a.same c = true := by
  rw [same_iff] at *
  grind

/-- The references of which one that is the same stands before. -/
def repeats (earlier : List Reference) : List Reference → List Reference
  | [] => []
  | r :: rest =>
      if earlier.any (·.same r) then r :: repeats (earlier ++ [r]) rest
      else repeats (earlier ++ [r]) rest

/-- What is not kept repeats.  The references that are kept stand for all the earlier
ones: they are the same as some of them. -/
theorem length_foldl_addTo : ∀ rs kept earlier : List Reference,
    (∀ r, kept.any (·.same r) = earlier.any (·.same r)) →
    (rs.foldl addTo kept).length + (repeats earlier rs).length = kept.length + rs.length
  | [], _, _, _ => rfl
  | r :: rs, kept, earlier, h => by
      rw [List.foldl_cons, addTo, repeats, h r]
      by_cases hsame : earlier.any (·.same r) = true
      · have hkept : ∀ q, kept.any (·.same q) = (earlier ++ [r]).any (·.same q) := by
          intro q
          rw [h, Bool.eq_iff_iff, List.any_append, Bool.or_eq_true, List.any_cons, List.any_nil,
            Bool.or_false]
          refine (or_iff_left_of_imp fun hq => ?_).symm
          obtain ⟨x, hx, hxr⟩ := List.any_eq_true.mp hsame
          exact List.any_eq_true.mpr ⟨x, hx, same_trans hxr hq⟩
        have ih := length_foldl_addTo rs _ _ hkept
        rw [if_pos hsame, if_pos hsame, List.length_cons, List.length_cons]
        omega
      · have hkept : ∀ q, (kept ++ [r]).any (·.same q) = (earlier ++ [r]).any (·.same q) := by
          intro q
          rw [List.any_append, List.any_append, h]
        have ih := length_foldl_addTo rs _ _ hkept
        rw [List.length_append, List.length_singleton] at ih
        rw [if_neg hsame, if_neg hsame, List.length_cons]
        omega

end Reference

/-! ## The report -/

/-- The counts of the results sum up what is written for their files. -/
theorem Report.sum_counts {α : Type} (kind? : Emission → Option α)
    (emitted : String → List Emission) {count : FileResult → Nat} : ∀ {report : Report},
    (∀ r ∈ report, count r = ((emitted r.path).filterMap kind?).length) →
    report.foldr (count · + ·) 0 =
      (((report.map (·.path)).flatMap emitted).filterMap kind?).length
  | [], _ => rfl
  | r :: rest, h => by
      have ih := sum_counts kind? emitted fun x hx => h x (List.mem_cons_of_mem _ hx)
      rw [List.foldr_cons, ih, h r List.mem_cons_self, List.map_cons, List.flatMap_cons,
        List.filterMap_append, List.length_append]

namespace Session

variable {s : Session} {paths : List String} {steps : List Step}

theorem acts_of_failure {file reason : String} (h : s.failure? file = some reason) :
    s.acts file = [] := by
  have hcontent : s.tree? file = none := by
    unfold tree? parsed?
    unfold failure? at h
    split at h
    · next heq => rw [heq]; rfl
    · cases h
  rw [acts, tasks, hcontent]
  rfl

/-- What the acts of a file write, in the pass that emits. -/
def emittedFor (s : Session) (steps : List Step) (file : String) : List Emission :=
  Act.emitFor file (s.known (Step.acts steps)) (Step.acts steps)

namespace Finished

variable {run : Run} {report : Report} (htour : s.Tour paths steps)
  (h : s.Finished steps run report)
include htour h

omit htour in
theorem counts_eq {r : FileResult} (hr : r ∈ report) :
    r.counts = Counts.ofAll (s.emittedFor steps r.path) := by
  rw [(h.counts r hr).2, Counts.foldl_add, emittedFor]
  simp

theorem acts_filter {r : FileResult} (hr : r ∈ report) :
    (Step.acts steps).filter (·.file = r.path) = s.acts r.path := by
  rw [htour.acts_filter, if_pos ((h.mem_report htour).mp (List.mem_map_of_mem hr))]

/-- Every act belongs to a file of the report. -/
theorem emittedFor_perm : ((report.map (·.path)).flatMap (s.emittedFor steps)).Perm
    (Act.emitAll (s.known (Step.acts steps)) (Step.acts steps)) := by
  refine Act.flatMap_emitFor_perm (h.nodup_report htour) fun a ha => ?_
  obtain ⟨file, hfile, hact⟩ := htour.mem_acts.mp ha
  rw [s.file_of_mem_acts hact]
  exact (h.mem_report htour).mpr hfile

theorem sum_definitions : Report.definitions report =
    (Act.definitions (s.known (Step.acts steps)) (Step.acts steps)).length := by
  have hsum : Report.definitions report = _ :=
    Report.sum_counts Emission.definition? (s.emittedFor steps) fun r hr =>
      congrArg Counts.definitions (h.counts_eq hr)
  rw [hsum, ((h.emittedFor_perm htour).filterMap _).length_eq]
  rfl

theorem sum_references : Report.references report =
    (Act.references (s.known (Step.acts steps)) (Step.acts steps)).length := by
  have hsum : Report.references report = _ :=
    Report.sum_counts Emission.reference? (s.emittedFor steps) fun r hr =>
      congrArg Counts.references (h.counts_eq hr)
  rw [hsum, ((h.emittedFor_perm htour).filterMap _).length_eq]
  rfl

/-- A file that failed has no acts: nothing is counted, and nothing written. -/
theorem failed_writes_nothing {r : FileResult} (hr : r ∈ report) (hfailed : r.isFailed = true) :
    r.counts = {} ∧ (∀ d ∈ run.store.written, d.file ≠ r.path) ∧
      ∀ x ∈ run.store.references, x.file ≠ r.path := by
  obtain ⟨reason, herror⟩ := Option.isSome_iff_exists.mp hfailed
  have hnone : s.acts r.path = [] := acts_of_failure ((h.results r hr).symm.trans herror)
  have hothers : ∀ a ∈ Step.acts steps, a.file ≠ r.path := by
    simpa [hnone, List.filter_eq_nil_iff] using h.acts_filter htour hr
  have hwriter : ∀ {file e}, s.WrittenFor paths file e → file ≠ r.path := by
    rintro file e ⟨-, a, ha, -⟩ rfl
    rw [hnone] at ha
    cases ha
  refine ⟨?_, fun d hd => ?_, fun x hx => ?_⟩
  · rw [h.counts_eq hr, emittedFor, Act.emitFor_of_ne hothers]
    rfl
  · have hmem := h.written.mem_iff.mp hd
    exact hwriter (htour.writtenFor (Emission.mem_filterMap_definition?.mp hmem) rfl)
  · rw [h.references] at hx
    have hmem := (Reference.mem_foldl_addTo hx).resolve_right List.not_mem_nil
    exact hwriter (htour.writtenFor (Emission.mem_filterMap_reference?.mp hmem) rfl)

end Finished

/-- The report accounts for all that the run has written. -/
structure Tallied (s : Session) (paths : List String) (steps : List Step) (run : Run)
    (report : Report) : Prop where
  tour : s.Tour paths steps
  /-- What is written is what the acts write, one after the other. -/
  store : run.store = (Store.recordAll
    (Act.emitAll (s.known (Step.acts steps)) (Step.acts steps)) {}).flush
  /-- The acts done for a file are the ones of its tree. -/
  own : ∀ r ∈ report, (Step.acts steps).filter (·.file = r.path) = s.acts r.path
  counts : ∀ r ∈ report, r.counts = Counts.ofAll (s.emittedFor steps r.path)
  failed : ∀ r ∈ report, r.isFailed → r.counts = {} ∧
    (∀ d ∈ run.store.written, d.file ≠ r.path) ∧ ∀ x ∈ run.store.references, x.file ≠ r.path
  definitions : Report.definitions report =
    run.store.definitions.length + run.store.collisions.length
  references : Report.references report = run.store.references.length +
    (Reference.repeats [] (Act.references (s.known (Step.acts steps)) (Step.acts steps))).length

/-- The counts of every file are those of its own acts, and all of them together are what
the store keeps, with the definitions that were overwritten and the references that
repeat. -/
theorem report_adds_up {run : Run} {report : Report}
    (hdone : s.process paths {} = .done run report) :
    ∃ steps, s.Tallied paths steps run report := by
  obtain ⟨steps, htour, hfinished⟩ := process_done hdone
  refine ⟨steps, htour, hfinished.store, fun r => hfinished.acts_filter htour,
    fun r => hfinished.counts_eq, fun r => hfinished.failed_writes_nothing htour, ?_, ?_⟩
  · have hwritten := hfinished.written.length_eq
    rw [Store.written, List.length_append, List.length_map] at hwritten
    rw [hfinished.sum_definitions htour, hwritten]
  · have hkept := Reference.length_foldl_addTo
      (Act.references (s.known (Step.acts steps)) (Step.acts steps)) [] [] fun _ => rfl
    rw [List.length_nil, Nat.zero_add] at hkept
    rw [hfinished.sum_references htour, hfinished.references, hkept]

theorem report_adds_up_mixed :
    ∃ run report, mixedUnit.process ["user.m", "foo.h", "bad.m"] {} = .done run report ∧
      (∃ steps, mixedUnit.Tallied ["user.m", "foo.h", "bad.m"] steps run report) ∧
      ∃ r ∈ report, r.path = "bad.m" ∧ r.isFailed = true ∧ r.counts = {} := by
  obtain ⟨run, report, hdone⟩ := mixedUnit_done ["user.m", "foo.h", "bad.m"]
  obtain ⟨tour, htour, hfinished⟩ := process_done hdone
  obtain ⟨steps, htallied⟩ := report_adds_up hdone
  have hreported : "bad.m" ∈ report.map (·.path) := (hfinished.mem_report htour).mpr (by decide)
  obtain ⟨r, hr, hpath⟩ := List.mem_map.mp hreported
  have hfailed : r.isFailed = true := by
    rw [FileResult.isFailed, hfinished.results r hr, hpath]
    rfl
  exact ⟨run, report, hdone, ⟨steps, htallied⟩, r, hr, hpath, hfailed,
    (htallied.failed r hr hfailed).1⟩

end Session

end SymbolGraph
