import SymbolGraph.Proofs.Definitions

/-!
# `Proofs.NormalForm` — the normal forms of paths, and what a run finds by them

A normal form is `.`, or steps up and then names:

    .      ..      ../..      user.m      lib/user.m      ../ext/user.m

Seen from a root, the texts that normalizing leaves alone are exactly these
(`normalize_eq_self_iff`), and normalizing gives nothing else.  No root is special.

A run normalizes each path TWICE: once to list the configured files, and again when it
comes to the file.  The second time changes nothing, so the file is found in the list, and
a run that is done has visited every file it was given, whatever was visited before.
-/

namespace SymbolGraph

namespace Path

/-! ## Normal forms -/

/-- The root itself, or steps up and then names, at least one of either. -/
inductive NormalForm : String → Prop
  | root : NormalForm "."
  | way (ups : Nat) (names : List String) : ups ≠ 0 ∨ names ≠ [] →
      (∀ name ∈ names, IsSegment name ∧ name ≠ "..") →
      NormalForm ("/".intercalate (List.replicate ups ".." ++ names))

theorem Ascends.exists_ups {segments : List String} (h : Ascends segments) :
    ∃ ups names, segments = List.replicate ups ".." ++ names ∧ ".." ∉ names := by
  induction segments with
  | nil => exact ⟨0, [], rfl, List.not_mem_nil⟩
  | cons segment rest ih =>
      obtain ⟨hsegment, hrest⟩ := List.pairwise_cons.mp h
      by_cases hup : segment = ".."
      · obtain ⟨ups, names, heq, hnames⟩ := ih hrest
        exact ⟨ups + 1, names, by rw [hup, heq]; rfl, hnames⟩
      · -- Behind a name there is no step up any more.
        refine ⟨0, segment :: rest, rfl, ?_⟩
        intro hmem
        rcases List.mem_cons.mp hmem with heq | hmem
        · exact hup heq.symm
        · exact hup (hsegment ".." hmem rfl)

/-- A normal form is the text of proper segments that ascend. -/
theorem normalForm_iff {text : String} : NormalForm text ↔
    ∃ segments, Ascends segments ∧ (∀ s ∈ segments, IsSegment s) ∧
      (Path.mk .here segments).text = text := by
  constructor
  · rintro (_ | ⟨ups, names, hsome, hnames⟩)
    · exact ⟨[], List.Pairwise.nil, fun _ => nofun, rfl⟩
    · refine ⟨List.replicate ups ".." ++ names,
        ascends_ups_append ups fun hup => (hnames _ hup).2 rfl, fun s hs => ?_, ?_⟩
      · rcases List.mem_append.mp hs with hs | hs
        · rw [List.eq_of_mem_replicate hs]
          exact isSegment_up
        · exact (hnames s hs).1
      · have hnonempty : (List.replicate ups ".." ++ names).isEmpty = false := by
          simpa [List.isEmpty_eq_false_iff, imp_iff_not_or] using hsome
        rw [Path.text, hnonempty]
        rfl
  · rintro ⟨segments, hascends, hproper, rfl⟩
    obtain ⟨ups, names, rfl, hnames⟩ := hascends.exists_ups
    by_cases hempty : List.replicate ups ".." ++ names = []
    · rw [hempty]
      exact .root
    · have htext : (Path.mk .here (List.replicate ups ".." ++ names)).text =
          "/".intercalate (List.replicate ups ".." ++ names) := by
        rw [Path.text, List.isEmpty_eq_false_iff.mpr hempty]
        rfl
      rw [htext]
      refine .way ups names ?_ fun name hname =>
        ⟨hproper name (List.mem_append_right _ hname), fun hup => hnames (hup ▸ hname)⟩
      simpa [imp_iff_not_or] using hempty

/-- Whatever a path is, normalizing it gives a normal form. -/
theorem normalForm_normalize (root : Path) {p : Path} (hp : ∀ s ∈ p.segments, IsSegment s) :
    NormalForm (normalize root p) :=
  normalForm_iff.mpr ⟨relativeSegments root p, relativeSegments_ascends root p,
    fun _ hs => isSegment_of_mem_relativeSegments hp hs, rfl⟩

namespace NormalForm

variable {text : String} (h : NormalForm text)
include h

theorem not_isAbsolute : (ofText text).isAbsolute = false := by
  obtain ⟨segments, -, hproper, rfl⟩ := normalForm_iff.mp h
  rw [ofText_text hproper]
  rfl

/-- A normal form stays as it is. -/
theorem normalize_eq (root : Path) : normalize root (ofText text) = text := by
  obtain ⟨segments, hascends, hproper, rfl⟩ := normalForm_iff.mp h
  exact normalize_ofText_text_of_ascends root hproper hascends

end NormalForm

theorem normalize_eq_self_iff (root : Path) {text : String} :
    normalize root (ofText text) = text ↔ NormalForm text := by
  constructor
  · intro h
    rw [← h]
    exact normalForm_normalize root fun _ => isSegment_of_mem_ofText
  · intro h
    exact h.normalize_eq root

end Path

/-! ## What a pass visits -/

namespace Session

variable {s : Session} {pass : Pass} {run after : Run}

/-- A configured file in normal form is visited when it is processed, if not before. -/
theorem mem_visited_of_processFile {file : String} (hfile : file ∈ run.files)
    (hnormal : s.normalizeFrom none file = file) :
    file ∈ (s.processFile pass none file run).run.visited := by
  rw [processFile_eq]
  dsimp only
  rw [hnormal]
  by_cases hfresh : Fresh run.files run.visited file
  · rw [if_neg (by rw [Run.fresh_iff.mpr hfresh]; exact Bool.false_ne_true)]
    have hgrows : (entering none file run).Grows
        (s.visit pass (s.processFile pass (some file)) file (entering none file run)).run :=
      Run.grows_stepwise.visit (Run.grows_stepwise.processFile (some file)) _
    obtain ⟨more, hmore⟩ := hgrows.visited
    have hentered : file ∈ (entering none file run).visited := by simp [entering]
    exact hmore ▸ List.mem_append_left more hentered
  · have hvisited : file ∈ run.visited := by
      by_contra hnot
      exact hfresh ⟨hfile, hnot⟩
    rw [if_pos (by rwa [← Bool.not_eq_false, Run.fresh_iff])]
    exact hvisited

/-- A pass that is done has visited each configured file that it was given. -/
theorem mem_visited_of_runPass {files : List String}
    (hfiles : ∀ file ∈ files, file ∈ run.files ∧ s.normalizeFrom none file = file)
    (hdone : s.runPass pass files run = .done after ()) :
    ∀ file ∈ files, file ∈ after.visited := by
  induction files generalizing run with
  | nil => exact fun _ => nofun
  | cons first rest ih =>
      intro file hfile
      obtain ⟨hlisted, hnormal⟩ := hfiles first List.mem_cons_self
      have hfirst : first ∈ (s.processFile pass none first run).run.visited :=
        mem_visited_of_processFile hlisted hnormal
      have hgrows : run.Grows (s.processFile pass none first run).run :=
        Run.grows_stepwise.processFile none first run
      rw [runPass_cons] at hdone
      cases houtcome : s.processFile pass none first run with
      | halted mid e =>
          rw [houtcome] at hdone
          cases hdone
      | done mid value =>
          rw [houtcome] at hdone hfirst hgrows
          have hdone : s.runPass pass rest mid = .done after () := hdone
          rcases List.mem_cons.mp hfile with rfl | hfile
          · have hlater : mid.Grows (s.runPass pass rest mid).run :=
              Run.grows_stepwise.runPass rest mid
            rw [hdone] at hlater
            obtain ⟨more, hmore⟩ := hlater.visited
            exact hmore ▸ List.mem_append_left _ hfirst
          · have hrest : ∀ other ∈ rest,
                other ∈ mid.files ∧ s.normalizeFrom none other = other := by
              intro other hother
              obtain ⟨hlisted, hnormal⟩ := hfiles other (List.mem_cons_of_mem _ hother)
              exact ⟨hgrows.files ▸ hlisted, hnormal⟩
            exact ih hrest hdone file hfile

theorem mem_visited_of_emit {files : List String} {report : Report}
    (hfiles : ∀ file ∈ files, file ∈ run.files ∧ s.normalizeFrom none file = file)
    (hdone : s.emit files run = .done after report) : ∀ file ∈ files, file ∈ after.visited := by
  have hstart : ∀ file ∈ files, file ∈ ({ run with report := [] } : Run).files ∧
      s.normalizeFrom none file = file := hfiles
  unfold emit at hdone
  cases houtcome : s.runPass .emitting files { run with report := [] } with
  | halted mid e =>
      rw [houtcome] at hdone
      cases hdone
  | done mid value =>
      rw [houtcome] at hdone
      have hvisited : ∀ file ∈ files, file ∈ mid.visited :=
        mem_visited_of_runPass hstart houtcome
      cases hdone
      exact hvisited

/-- Whatever was visited before, a run that is done has visited each configured file. -/
theorem mem_visited_of_process {paths : List String} {report : Report}
    (hdone : s.process paths run = .done after report) :
    ∀ file ∈ s.configured paths, file ∈ after.visited := by
  cases htwo : s.twoPass with
  | true =>
      rw [process_twoPass htwo] at hdone
      have hgrows : (s.collectingStart paths run).Grows
          (s.runPass .collecting (s.configured paths) (s.collectingStart paths run)).run :=
        Run.grows_stepwise.runPass _ _
      cases houtcome :
          s.runPass .collecting (s.configured paths) (s.collectingStart paths run) with
      | halted mid e =>
          rw [houtcome] at hdone
          cases hdone
      | done mid value =>
          rw [houtcome] at hdone hgrows
          have hfiles : mid.files = s.configured paths := hgrows.files
          refine mem_visited_of_emit ?_ hdone
          intro file hfile
          exact ⟨hfiles ▸ hfile, normalizeFrom_configured hfile⟩
  | false =>
      rw [process_onePass htwo] at hdone
      exact mem_visited_of_emit (fun file hfile => ⟨hfile, normalizeFrom_configured hfile⟩) hdone

/-- What is normalized is in normal form, and so never absolute; normalizing it again, or
any other normal form, changes nothing.  Hence every path of a run is found among the
configured files when it is normalized again: whatever was visited before, a run that is
done has visited it, and reports it where nothing was visited before. -/
theorem normal_forms_are_stable (s : Session) :
    (∀ path, Path.NormalForm (s.normalize path) ∧
      (Path.ofText (s.normalize path)).isAbsolute = false ∧
      s.normalize (s.normalize path) = s.normalize path) ∧
    (∀ text, s.normalize text = text ↔ Path.NormalForm text) ∧
    ∀ paths, ∀ path ∈ paths,
      (s.configured paths).contains (s.normalizeFrom none (s.normalize path)) = true ∧
      (∀ run after report, s.process paths run = .done after report →
        s.normalize path ∈ after.visited) ∧
      ∀ after report, s.process paths {} = .done after report →
        s.normalize path ∈ report.map (·.path) := by
  have hnormal : ∀ path, Path.NormalForm (s.normalize path) := fun _ =>
    Path.normalForm_normalize s.root fun _ => Path.isSegment_of_mem_ofText
  refine ⟨fun path => ⟨hnormal path, (hnormal path).not_isAbsolute,
    (hnormal path).normalize_eq s.root⟩, fun text => Path.normalize_eq_self_iff s.root,
    fun paths path hpath => ?_⟩
  have hlisted : s.normalize path ∈ s.configured paths := List.mem_map_of_mem hpath
  refine ⟨?_, fun run after report hdone => mem_visited_of_process hdone _ hlisted,
    fun after report hdone => ?_⟩
  · rw [normalizeFrom_configured hlisted]
    exact List.contains_iff_mem.mpr hlisted
  · obtain ⟨steps, htour, hfinished⟩ := process_done hdone
    exact (hfinished.mem_report htour).mpr hlisted

theorem normal_forms_are_stable_mutual :
    mutualUnit.normalize "/unit/../ext//./b.h" = "../ext/b.h" ∧
    mutualUnit.normalize "../ext/b.h" = "../ext/b.h" ∧ Path.NormalForm "../ext/b.h" ∧
    "/unit/../ext//./b.h" ∈ ["lib/..//user.m", "/unit/../ext//./b.h"] ∧
    (mutualUnit.configured ["lib/..//user.m", "/unit/../ext//./b.h"]).contains
      (mutualUnit.normalizeFrom none "../ext/b.h") = true ∧
    ∃ run report,
      mutualUnit.process ["lib/..//user.m", "/unit/../ext//./b.h"] {} = .done run report ∧
      "../ext/b.h" ∈ run.visited ∧ "../ext/b.h" ∈ report.map (·.path) := by
  have hname : mutualUnit.normalize "/unit/../ext//./b.h" = "../ext/b.h" := by decide
  obtain ⟨hstable, hnormal, hruns⟩ := normal_forms_are_stable mutualUnit
  obtain ⟨hform, -, hagain⟩ := hstable "/unit/../ext//./b.h"
  obtain ⟨run, report, hdone⟩ := mutualUnit_done ["lib/..//user.m", "/unit/../ext//./b.h"]
  have hmem : "/unit/../ext//./b.h" ∈ ["lib/..//user.m", "/unit/../ext//./b.h"] := by decide
  obtain ⟨hlisted, hvisited, hreported⟩ := hruns _ _ hmem
  rw [hname] at hform hagain hlisted hvisited hreported
  exact ⟨hname, (hnormal _).mpr hform, hform, hmem, hlisted, run, report, hdone,
    hvisited {} run report hdone, hreported run report hdone⟩

end Session

end SymbolGraph
