import SymbolGraph.Proofs.Recursion

/-!
# `Proofs.Restore` — a pass puts back what it sets

The state says which pass is under way.  A pass over a list of files sets it, and sets
it back at either end.  Two facts are behind what follows from that:

    in a visit, setting the pass comes to the same early or late   `processFile_inPass`
    so no visit changes it                                         `pass_processFile`

By the first, a pass is what its files make of the state, one after another, with nothing
to be undone between them (`runPass_cons`).  By the second, a file that is included is
processed in the pass of the file around it, although it only asks the state
(`processPath_eq`).  A call, whether it is done or halts, leaves the run in the pass in
which it has found it (`pass_process`).
-/

namespace SymbolGraph

namespace Run

@[simp] theorem pass_inPass (run : Run) (pass : Pass) : (run.inPass pass).pass = pass := rfl

@[simp] theorem inPass_self (run : Run) : run.inPass run.pass = run := rfl

end Run

@[simp] theorem Outcome.pass_inPass {α : Type} (o : Outcome α) (pass : Pass) :
    (o.inPass pass).run.pass = pass := by
  cases o <;> rfl

/-! ## Setting the pass, early or late -/

namespace Run

variable {pass q : Pass} {file : String}

theorem record_inPass (run : Run) (e : Emission) :
    record pass file (run.inPass q) e = (record pass file run e).inPass q := by
  cases e <;> cases pass <;> rfl

theorem foldl_record_inPass (es : List Emission) (run : Run) :
    es.foldl (record pass file) (run.inPass q) = (es.foldl (record pass file) run).inPass q :=
  List.foldl_hom (inPass · q) record_inPass

theorem act_inPass (a : Act) (run : Run) :
    (run.inPass q).act pass a = (run.act pass a).inPass q :=
  foldl_record_inPass _ { run with symbols := a.action.declared run.symbols }

theorem walk_inPass {enter : String → Run → Outcome (Option FileResult)}
    (henter : ∀ path run, enter path (run.inPass q) = (enter path run).inPass q) :
    ∀ (as : List Action) (w : Walker) (counts : Counts) (run : Run),
      (run.inPass q).walk enter pass file as w counts =
        (run.walk enter pass file as w counts).inPass q := by
  intro as
  induction as with
  | nil => exact fun _ _ _ => rfl
  | cons a rest ih =>
      intro w counts run
      by_cases ha : ∃ path, a = .inclusion path
      · obtain ⟨path, rfl⟩ := ha
        rw [walk, walk, henter path run]
        cases enter path run with
        | done mid value => exact ih w counts mid
        | halted mid e => rfl
      · have ha : ∀ path, a ≠ .inclusion path := fun path hpath => ha ⟨path, hpath⟩
        rw [walk_cons ha, walk_cons ha, act_inPass]
        exact ih _ _ _

end Run

namespace Session

variable {s : Session} {pass q : Pass}

theorem fetch_inPass (file : String) (run : Run) :
    s.fetch file (run.inPass q) = ((s.fetch file run).1.inPass q, (s.fetch file run).2) := by
  unfold fetch
  have hcache : (run.inPass q).cache = run.cache := rfl
  rw [hcache]
  cases run.cache.get? file with
  | some p => rfl
  | none =>
      cases s.readFile file with
      | error other => rfl
      | ok bytes =>
          dsimp only
          cases (s.sources.parse bytes file).2 <;> rfl

theorem load_inPass (file : String) (run : Run) :
    s.load pass file (run.inPass q) =
      ((s.load pass file run).1.inPass q, (s.load pass file run).2) := by
  unfold load
  rw [fetch_inPass]
  rcases s.fetch file run with ⟨mid, loaded⟩
  cases pass <;> cases loaded <;> rfl

theorem noted_inPass (events : List Event) (run : Run) :
    noted pass events (run.inPass q) = (noted pass events run).inPass q := by
  cases pass <;> rfl

theorem conclude_inPass (run : Run) (result : FileResult) :
    conclude pass (run.inPass q) result = (conclude pass run result).inPass q := by
  cases pass <;> rfl

theorem finish_inPass (file : String) (issues : List Issue) (o : Outcome Counts) :
    finish pass file issues (o.inPass q) = (finish pass file issues o).inPass q := by
  cases o with
  | done run counts => exact conclude_inPass run _
  | halted run e => rfl

theorem visit_inPass {enter : String → Run → Outcome (Option FileResult)}
    (henter : ∀ path run, enter path (run.inPass q) = (enter path run).inPass q)
    (file : String) (run : Run) :
    s.visit pass enter file (run.inPass q) = (s.visit pass enter file run).inPass q := by
  rcases hloaded : s.load pass file run with ⟨mid, loaded⟩
  have hloaded' : s.load pass file (run.inPass q) = (mid.inPass q, loaded) := by
    rw [load_inPass, hloaded]
  cases loaded with
  | unreadable reason =>
      rw [visit_of_unreadable hloaded, visit_of_unreadable hloaded']
      rfl
  | failed reason =>
      rw [visit_of_failed hloaded, visit_of_failed hloaded', noted_inPass, conclude_inPass]
  | parsed p =>
      rw [visit_of_parsed hloaded, visit_of_parsed hloaded', noted_inPass,
        Run.walk_inPass henter, finish_inPass]

theorem processWithin_inPass (depth : Nat) :
    ∀ (origin : Option String) (path : String) (run : Run),
      s.processWithin pass depth origin path (run.inPass q) =
        (s.processWithin pass depth origin path run).inPass q := by
  induction depth with
  | zero =>
      intro origin path run
      unfold processWithin
      simp only [ite_self]
      rfl
  | succ depth ih =>
      intro origin path run
      by_cases h : Fresh run.files run.visited (s.normalizeFrom origin path)
      · have h' : Fresh (run.inPass q).files (run.inPass q).visited
            (s.normalizeFrom origin path) := h
        rw [processWithin_fresh h, processWithin_fresh h']
        exact visit_inPass (ih _) _ (entering origin _ run)
      · have h' : ¬ Fresh (run.inPass q).files (run.inPass q).visited
            (s.normalizeFrom origin path) := h
        rw [processWithin_stale h, processWithin_stale h']
        rfl

theorem processFile_inPass (origin : Option String) (path : String) (run : Run) :
    s.processFile pass origin path (run.inPass q) =
      (s.processFile pass origin path run).inPass q :=
  processWithin_inPass run.unvisited origin path run

theorem pass_processFile (origin : Option String) (path : String) (run : Run) :
    (s.processFile pass origin path run).run.pass = run.pass := by
  have hself : s.processFile pass origin path (run.inPass run.pass) = _ :=
    processFile_inPass origin path run
  rw [Run.inPass_self] at hself
  rw [hself, Outcome.pass_inPass]

/-! ## The pass that the state tells -/

theorem pass_load (file : String) (run : Run) : (s.load pass file run).1.pass = run.pass := by
  obtain ⟨log, parses, cache, hload⟩ := s.load_frame pass file run
  rw [hload]

theorem processPath_of_pass {run : Run} (h : run.pass = pass) (origin : Option String)
    (path : String) : s.processPath origin path run = s.processFile pass origin path run := by
  rw [processPath, h]

/-- Processing a file, as the state has it: an included file is processed likewise. -/
theorem processPath_eq (origin : Option String) (path : String) (run : Run) :
    s.processPath origin path run =
      let file := s.normalizeFrom origin path
      if !run.files.contains file || run.visited.contains file then .done run none
      else s.visit run.pass (s.processPath (some file)) file
        { run.logAll [.processing file origin] with visited := run.visited ++ [file] } := by
  unfold processPath
  rw [processFile_eq]
  dsimp only
  split
  · rfl
  · -- Where an included file is processed, the state still has the pass of the file around it.
    have hkeeps : Run.Keeps run.pass (s.processFile run.pass (some (s.normalizeFrom origin path)))
        (·.pass = run.pass) := by
      refine ⟨fun a mid hmid => ?_, fun included mid hmid => ?_⟩
      · obtain ⟨log, hact⟩ := mid.act_frame run.pass a
        rw [hact]
        exact hmid
      · rw [pass_processFile]
        exact hmid
    refine visit_congr hkeeps (fun included mid hmid => by rw [hmid]) rfl fun log => ?_
    exact pass_load _ (entering origin (s.normalizeFrom origin path) run)

/-! ## From one end of a pass to the other -/

@[simp] theorem runPass_nil (pass : Pass) (run : Run) : s.runPass pass [] run = .done run () := rfl

theorem runPass_cons (pass : Pass) (path : String) (rest : List String) (run : Run) :
    s.runPass pass (path :: rest) run =
      match s.processFile pass none path run with
      | .done mid _ => s.runPass pass rest mid
      | .halted mid e => .halted mid e := by
  have hpass : (s.processFile pass none path run).run.pass = run.pass :=
    pass_processFile none path run
  -- The file finds the pass set, which comes to the same as to set it behind the file.
  rw [runPass, processAll, processPath, Run.pass_inPass, processFile_inPass]
  cases houtcome : s.processFile pass none path run with
  | done mid value =>
      rw [houtcome] at hpass
      rw [← hpass]
      rfl
  | halted mid e =>
      rw [houtcome] at hpass
      rw [← hpass]
      rfl

theorem pass_runPass (pass : Pass) (paths : List String) (run : Run) :
    (s.runPass pass paths run).run.pass = run.pass :=
  Outcome.pass_inPass _ _

theorem pass_emit (ordered : List String) (run : Run) :
    (s.emit ordered run).run.pass = run.pass := by
  have hrun : (s.runPass .emitting ordered { run with report := [] }).run.pass = run.pass :=
    pass_runPass ..
  unfold emit
  cases houtcome : s.runPass .emitting ordered { run with report := [] } with
  | done mid value =>
      rw [houtcome] at hrun
      exact hrun
  | halted mid e =>
      rw [houtcome] at hrun
      exact hrun

/-- Done or halted, a call leaves the run in the pass in which it has found it. -/
theorem pass_process (paths : List String) (run : Run) :
    (s.process paths run).run.pass = run.pass := by
  unfold process
  dsimp only
  split
  · have hfirst : (s.runPass .collecting (paths.map s.normalize)
        (Run.logAll { run with files := paths.map s.normalize }
          [.collecting (paths.map s.normalize).length])).run.pass = run.pass := pass_runPass ..
    split
    · next mid e houtcome =>
      rw [houtcome] at hfirst
      exact hfirst
    · next mid value houtcome =>
      rw [houtcome] at hfirst
      exact (pass_emit _ _).trans hfirst
  · exact pass_emit _ _

end Session

/-- What every change of a visit respects, a pass respects. -/
theorem Run.Stepwise.runPass {R : Run → Run → Prop} (h : Run.Stepwise R) {s : Session}
    {pass : Pass} : ∀ (paths : List String) (run : Run),
      R run (s.runPass pass paths run).run := by
  intro paths
  induction paths with
  | nil => exact h.refl
  | cons path rest ih =>
      intro run
      have hfirst : R run (s.processFile pass none path run).run := h.processFile none path run
      rw [Session.runPass_cons]
      split
      · next mid _ houtcome =>
        rw [houtcome] at hfirst
        exact h.trans hfirst (ih mid)
      · next mid _ houtcome =>
        rw [houtcome] at hfirst
        exact hfirst

end SymbolGraph
