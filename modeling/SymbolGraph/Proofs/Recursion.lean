import SymbolGraph.Proofs.Store
import SymbolGraph.Proofs.Traversal

/-!
# `Proofs.Recursion` — the visits of files inside one another come to an end

A visit follows the inclusions of a file, each of which may be the visit of
another file, and inclusions may form circles.  Whatever lies inside, a visit
is made of five kinds of changes to the state: it begins, a file is loaded, something
is noted in the log, an act is performed, a result is reported.  A relation between
earlier and later states that these respect is respected by a visit as a whole
(`Run.Stepwise`).

`processWithin` is given a `depth`, and does nothing where it is used up.  Two
facts make the depth disappear:

    a visit takes one of the files that are left     `Run.unvisited_lt`
    no change gives a file back                      `Run.grows_stepwise`

so that the number of files left is always depth enough, and `processFile`
satisfies the recursion that has no depth at all (`processFile_eq`).
-/

namespace SymbolGraph

/-! ## The files that are left -/

namespace Run

/-- A later state of the same run: no visit is forgotten. -/
structure Grows (before after : Run) : Prop where
  files : after.files = before.files
  visited : ∃ more, after.visited = before.visited ++ more

theorem Grows.refl (run : Run) : run.Grows run := ⟨rfl, [], by simp⟩

theorem Grows.trans {a b c : Run} (h : a.Grows b) (h' : b.Grows c) : a.Grows c := by
  obtain ⟨more, hmore⟩ := h.visited
  obtain ⟨later, hlater⟩ := h'.visited
  exact ⟨h'.files.trans h.files, more ++ later, by rw [hlater, hmore, List.append_assoc]⟩

theorem unvisited_sublist {before after : Run} (h : before.Grows after) :
    (after.files.filter fun f => !after.visited.contains f).Sublist
      (before.files.filter fun f => !before.visited.contains f) := by
  obtain ⟨more, hmore⟩ := h.visited
  rw [h.files, hmore]
  refine List.monotone_filter_right _ fun file hfile => ?_
  simp only [List.contains_append, Bool.not_or, Bool.and_eq_true] at hfile
  exact hfile.1

theorem unvisited_le {before after : Run} (h : before.Grows after) :
    after.unvisited ≤ before.unvisited :=
  (unvisited_sublist h).length_le

theorem unvisited_lt {before after : Run} (hfiles : after.files = before.files) {file : String}
    (hvisited : after.visited = before.visited ++ [file])
    (hfresh : Fresh before.files before.visited file) : after.unvisited < before.unvisited := by
  have hsub := unvisited_sublist ⟨hfiles, [file], hvisited⟩
  refine Nat.lt_of_le_of_ne hsub.length_le fun heq => ?_
  have hmem : file ∈ before.files.filter fun f => !before.visited.contains f :=
    List.mem_filter.mpr ⟨hfresh.1, by simpa using hfresh.2⟩
  rw [← hsub.eq_of_length heq, hvisited] at hmem
  simpa using (List.mem_filter.mp hmem).2

theorem unvisited_pos {run : Run} {file : String} (h : Fresh run.files run.visited file) :
    0 < run.unvisited :=
  List.length_pos_of_mem (List.mem_filter.mpr ⟨h.1, by simpa using h.2⟩)

theorem fresh_iff {run : Run} {file : String} :
    (!run.files.contains file || run.visited.contains file) = false ↔
      Fresh run.files run.visited file := by
  simp [Fresh]

end Run

/-! ## Performing an act -/

/-- What a pass keeps of what its steps write. -/
def Pass.only {α : Type} (pass : Pass) (written : List α) : List α :=
  match pass with
  | .collecting => []
  | .emitting => written

@[simp] theorem Pass.only_nil {α : Type} (pass : Pass) : pass.only ([] : List α) = [] := by
  cases pass <;> rfl

@[simp] theorem Pass.only_append {α : Type} (pass : Pass) (xs ys : List α) :
    pass.only (xs ++ ys) = pass.only xs ++ pass.only ys := by
  cases pass <;> rfl

namespace Run

theorem foldl_record (pass : Pass) (file : String) : ∀ (es : List Emission) (run : Run),
    ∃ log, es.foldl (record pass file) run =
      { run with log, store := run.store.recordAll (pass.only es) }
  | [], run => ⟨run.log, by cases pass <;> rfl⟩
  | e :: es, run => by
      obtain ⟨log, h⟩ := foldl_record pass file es (record pass file run e)
      refine ⟨log, ?_⟩
      rw [List.foldl_cons, h]
      cases e <;> cases pass <;> rfl

/-- The state behind a step that is no inclusion. -/
def act (pass : Pass) (a : Act) (run : Run) : Run :=
  (a.emissions run.symbols).foldl (record pass a.file)
    { run with symbols := a.action.declared run.symbols }

theorem walk_cons {enter : String → Run → Outcome (Option FileResult)} {pass : Pass}
    {file : String} {a : Action} (ha : ∀ path, a ≠ .inclusion path) (rest : List Action)
    (w : Walker) (counts : Counts) (run : Run) :
    run.walk enter pass file (a :: rest) w counts =
      (run.act pass ⟨file, w, a⟩).walk enter pass file rest (a.moved w)
        ((Act.emissions ⟨file, w, a⟩ run.symbols).foldl Counts.add counts) := by
  unfold act
  rw [← perform_walker file a w run.symbols, ← perform_symbols file a w run.symbols]
  cases a with
  | inclusion path => exact absurd rfl (ha path)
  | _ => rfl

theorem act_frame (pass : Pass) (a : Act) (run : Run) : ∃ log, run.act pass a =
    { run with
      symbols := a.action.declared run.symbols
      log
      store := run.store.recordAll (pass.only (a.emissions run.symbols)) } :=
  foldl_record pass a.file (a.emissions run.symbols)
    { run with symbols := a.action.declared run.symbols }

end Run

/-! ## What every change respects, a visit respects -/

/-- The state in which a step ends. -/
def Outcome.run {α : Type} : Outcome α → Run
  | .done run _ => run
  | .halted run _ => run

namespace Session

/-- The state in which a visit begins. -/
def entering (origin : Option String) (file : String) (run : Run) : Run :=
  { run.logAll [.processing file origin] with visited := run.visited ++ [file] }

/-- The state in which a file is walked, or found not to parse: all is as before
but the log. -/
def noted (pass : Pass) (events : List Event) (run : Run) : Run :=
  match pass with
  | .collecting => run
  | .emitting => run.logAll events

theorem noted_eq (pass : Pass) (events : List Event) (run : Run) :
    ∃ log, noted pass events run = { run with log } := by
  cases pass with
  | collecting => exact ⟨run.log, rfl⟩
  | emitting => exact ⟨_, rfl⟩

theorem load_frame (s : Session) (pass : Pass) (file : String) (run : Run) :
    ∃ log parses cache, (s.load pass file run).1 = { run with log, parses, cache } := by
  have hfetch : ∃ log parses cache, (s.fetch file run).1 = { run with log, parses, cache } := by
    unfold fetch
    split
    · exact ⟨_, _, _, rfl⟩
    · split
      · exact ⟨_, _, _, rfl⟩
      · dsimp only
        split <;> exact ⟨_, _, _, rfl⟩
  obtain ⟨log, parses, cache, hfetch⟩ := hfetch
  unfold load
  split
  · next p heq =>
    rw [heq] at hfetch
    dsimp only at hfetch
    subst hfetch
    exact ⟨_, _, _, rfl⟩
  · exact ⟨log, parses, cache, hfetch⟩

/-- The end of a walk is the end of the visit around it. -/
def finish (pass : Pass) (file : String) (issues : List Issue) :
    Outcome Counts → Outcome (Option FileResult)
  | .done run counts => conclude pass run { path := file, counts, issues }
  | .halted run e => .halted run e

section Visit

variable {s : Session} {pass : Pass} {enter : String → Run → Outcome (Option FileResult)}
  {file : String} {run mid : Run}

theorem visit_of_unreadable {reason : String}
    (h : s.load pass file run = (mid, .unreadable reason)) :
    s.visit pass enter file run = .halted mid ⟨file, reason⟩ := by
  unfold visit
  rw [h]

theorem visit_of_failed {reason : String} (h : s.load pass file run = (mid, .failed reason)) :
    s.visit pass enter file run =
      conclude pass (noted pass [.walkFailed file reason] mid)
        { path := file, error := reason } := by
  unfold visit
  rw [h]
  rfl

theorem visit_of_parsed {p : Parsed} (h : s.load pass file run = (mid, .parsed p)) :
    s.visit pass enter file run = finish pass file p.issues
      ((noted pass (p.issues.map (.issue file)) mid).walk enter pass file
        (p.tree.actions {}) {} {}) := by
  unfold visit
  rw [h]
  rfl

end Visit

end Session

open Session

/-- The relation holds between the states before and after every change that a visit
is made of. -/
structure Run.Stepwise (R : Run → Run → Prop) : Prop where
  refl (run : Run) : R run run
  trans {a b c : Run} : R a b → R b c → R a c
  enter (origin : Option String) (file : String) (run : Run) : R run (entering origin file run)
  load (s : Session) (pass : Pass) (file : String) (run : Run) : R run (s.load pass file run).1
  note (pass : Pass) (events : List Event) (run : Run) : R run (noted pass events run)
  act (pass : Pass) (a : Act) (run : Run) : R run (run.act pass a)
  conclude (pass : Pass) (run : Run) (result : FileResult) :
    R run (Session.conclude pass run result).run

namespace Run.Stepwise

variable {R : Run → Run → Prop} {s : Session} {pass : Pass} {file : String}
  {follow : String → Run → Outcome (Option FileResult)}

theorem walk (h : Stepwise R) (hfollow : ∀ path run, R run (follow path run).run) :
    ∀ (as : List Action) (w : Walker) (counts : Counts) (run : Run),
      R run (run.walk follow pass file as w counts).run := by
  intro as
  induction as with
  | nil => exact fun _ _ run => h.refl run
  | cons a rest ih =>
      intro w counts run
      by_cases ha : ∃ path, a = .inclusion path
      · obtain ⟨path, rfl⟩ := ha
        have hpath := hfollow path run
        rw [Run.walk]
        cases houtcome : follow path run with
        | done mid value =>
            rw [houtcome] at hpath
            exact h.trans hpath (ih w counts mid)
        | halted mid e =>
            rw [houtcome] at hpath
            exact hpath
      · rw [Run.walk_cons fun path hpath => ha ⟨path, hpath⟩]
        exact h.trans (h.act ..) (ih ..)

theorem finish (h : Stepwise R) {run : Run} {o : Outcome Counts} (ho : R run o.run)
    (file : String) (issues : List Issue) : R run (Session.finish pass file issues o).run := by
  cases o with
  | done after counts => exact h.trans ho (h.conclude ..)
  | halted after e => exact ho

theorem visit (h : Stepwise R) (hfollow : ∀ path run, R run (follow path run).run) (run : Run) :
    R run (s.visit pass follow file run).run := by
  have hload := h.load s pass file run
  rcases hloaded : s.load pass file run with ⟨mid, loaded⟩
  rw [hloaded] at hload
  cases loaded with
  | unreadable reason =>
      rw [visit_of_unreadable hloaded]
      exact hload
  | failed reason =>
      rw [visit_of_failed hloaded]
      exact h.trans (h.trans hload (h.note ..)) (h.conclude ..)
  | parsed p =>
      rw [visit_of_parsed hloaded]
      exact h.trans (h.trans hload (h.note ..)) (h.finish (h.walk hfollow ..) file p.issues)

theorem processWithin (h : Stepwise R) (depth : Nat) :
    ∀ (origin : Option String) (path : String) (run : Run),
      R run (s.processWithin pass depth origin path run).run := by
  induction depth with
  | zero =>
      intro origin path run
      unfold Session.processWithin
      simp only [ite_self]
      exact h.refl run
  | succ depth ih =>
      intro origin path run
      rw [Session.processWithin]
      dsimp only
      split
      · exact h.refl run
      · exact h.trans (h.enter origin _ run) (h.visit (ih _) _)

theorem processFile (h : Stepwise R) (origin : Option String) (path : String) (run : Run) :
    R run (s.processFile pass origin path run).run :=
  h.processWithin _ origin path run

end Run.Stepwise

/-! ## No visit is forgotten -/

theorem Run.grows_stepwise : Run.Stepwise Run.Grows where
  refl := .refl
  trans := .trans
  enter _ _ _ := ⟨rfl, _, rfl⟩
  load s pass file run := by
    obtain ⟨log, parses, cache, h⟩ := s.load_frame pass file run
    rw [h]
    exact ⟨rfl, [], by simp⟩
  note pass events run := by
    obtain ⟨log, h⟩ := noted_eq pass events run
    rw [h]
    exact ⟨rfl, [], by simp⟩
  act pass a run := by
    obtain ⟨log, h⟩ := run.act_frame pass a
    rw [h]
    exact ⟨rfl, [], by simp⟩
  conclude pass run result := by
    cases pass <;> exact ⟨rfl, [], by simp [Session.conclude, Outcome.run]⟩

/-- The steps of a walk keep the invariant. -/
structure Run.Keeps (pass : Pass) (enter : String → Run → Outcome (Option FileResult))
    (I : Run → Prop) : Prop where
  act (a : Act) {run : Run} : I run → I (run.act pass a)
  enter (path : String) {run : Run} : I run → I (enter path run).run

theorem Run.keeps_unvisited {enter : String → Run → Outcome (Option FileResult)} (pass : Pass)
    (hgrows : ∀ path (run : Run), run.Grows (enter path run).run) (depth : Nat) :
    Run.Keeps pass enter (·.unvisited ≤ depth) where
  act _ _ h := Nat.le_trans (Run.unvisited_le (Run.grows_stepwise.act ..)) h
  enter _ _ h := Nat.le_trans (Run.unvisited_le (hgrows ..)) h

/-- Two ways to follow an inclusion make no difference to a walk, if they agree
wherever an invariant of the walk holds. -/
theorem Run.walk_congr {enter enter' : String → Run → Outcome (Option FileResult)} {pass : Pass}
    {file : String} {I : Run → Prop} (hkeeps : Run.Keeps pass enter I)
    (hsame : ∀ path (run : Run), I run → enter path run = enter' path run) :
    ∀ (as : List Action) (w : Walker) (counts : Counts) (run : Run), I run →
      run.walk enter pass file as w counts = run.walk enter' pass file as w counts := by
  intro as
  induction as with
  | nil => exact fun _ _ _ _ => rfl
  | cons a rest ih =>
      intro w counts run hrun
      by_cases ha : ∃ path, a = .inclusion path
      · obtain ⟨path, rfl⟩ := ha
        have hpath := hkeeps.enter path hrun
        rw [Run.walk, Run.walk, ← hsame path run hrun]
        cases houtcome : enter path run with
        | done mid value =>
            rw [houtcome] at hpath
            exact ih w counts mid hpath
        | halted mid e => rfl
      · have ha : ∀ path, a ≠ .inclusion path := fun path hpath => ha ⟨path, hpath⟩
        rw [Run.walk_cons ha, Run.walk_cons ha]
        exact ih _ _ _ (hkeeps.act _ hrun)

namespace Session

section Visit

variable {s s' : Session} {pass : Pass} {file : String} {run : Run}
  {enter enter' : String → Run → Outcome (Option FileResult)}

/-- A visit depends on what it loads and on how it follows inclusions. -/
theorem visit_congr {I : Run → Prop} (hkeeps : Run.Keeps pass enter I)
    (hsame : ∀ path (run : Run), I run → enter path run = enter' path run)
    (hload : s.load pass file run = s'.load pass file run)
    (hrun : ∀ log, I { (s.load pass file run).1 with log }) :
    s.visit pass enter file run = s'.visit pass enter' file run := by
  rcases hloaded : s.load pass file run with ⟨mid, loaded⟩
  have hloaded' := hload.symm.trans hloaded
  rw [hloaded] at hrun
  cases loaded with
  | unreadable reason => rw [visit_of_unreadable hloaded, visit_of_unreadable hloaded']
  | failed reason => rw [visit_of_failed hloaded, visit_of_failed hloaded']
  | parsed p =>
      obtain ⟨log, hnoted⟩ := noted_eq pass (p.issues.map (.issue file)) mid
      rw [visit_of_parsed hloaded, visit_of_parsed hloaded', hnoted,
        Run.walk_congr hkeeps hsame _ _ _ _ (hrun log)]

theorem unvisited_load {depth : Nat} (h : run.unvisited ≤ depth) (log : Array Event) :
    ({ (s.load pass file run).1 with log } : Run).unvisited ≤ depth := by
  have hleft := Run.unvisited_le (Run.grows_stepwise.load s pass file run)
  exact Nat.le_trans hleft h

end Visit

variable {s : Session} {pass : Pass}

/-! ## The depth is no bound -/

theorem processWithin_stale {origin : Option String} {path : String} {run : Run}
    (h : ¬ Fresh run.files run.visited (s.normalizeFrom origin path)) (depth : Nat) :
    s.processWithin pass depth origin path run = .done run none := by
  unfold processWithin
  rw [if_pos (by rwa [← Bool.not_eq_false, Run.fresh_iff])]

theorem processWithin_fresh {origin : Option String} {path : String} {run : Run}
    (h : Fresh run.files run.visited (s.normalizeFrom origin path)) (depth : Nat) :
    s.processWithin pass (depth + 1) origin path run =
      s.visit pass (s.processWithin pass depth (some (s.normalizeFrom origin path)))
        (s.normalizeFrom origin path) (entering origin (s.normalizeFrom origin path) run) := by
  rw [processWithin]
  dsimp only
  rw [if_neg (by rw [Run.fresh_iff.mpr h]; exact Bool.false_ne_true)]
  rfl

theorem unvisited_entering {origin : Option String} {file : String} {run : Run}
    (h : Fresh run.files run.visited file) :
    (entering origin file run).unvisited < run.unvisited :=
  Run.unvisited_lt rfl rfl h

theorem processWithin_succ (depth : Nat) : ∀ (origin : Option String) (path : String) (run : Run),
    run.unvisited ≤ depth →
      s.processWithin pass depth origin path run =
        s.processWithin pass (depth + 1) origin path run := by
  induction depth with
  | zero =>
      intro origin path run hdepth
      have hstale : ¬ Fresh run.files run.visited (s.normalizeFrom origin path) := fun h =>
        absurd (Run.unvisited_pos h) (by omega)
      rw [processWithin_stale hstale, processWithin_stale hstale]
  | succ depth ih =>
      intro origin path run hdepth
      by_cases h : Fresh run.files run.visited (s.normalizeFrom origin path)
      · have hleft : (entering origin _ run).unvisited < run.unvisited := unvisited_entering h
        rw [processWithin_fresh h, processWithin_fresh h]
        exact visit_congr
          (Run.keeps_unvisited pass (Run.grows_stepwise.processWithin depth _) depth) (ih _) rfl
          (unvisited_load (by omega))
      · rw [processWithin_stale h, processWithin_stale h]

/-- Any depth that is not too small gives the same. -/
theorem processWithin_eq_processFile {depth : Nat} {run : Run} (h : run.unvisited ≤ depth)
    (origin : Option String) (path : String) :
    s.processWithin pass depth origin path run = s.processFile pass origin path run := by
  induction h with
  | refl => rfl
  | step hdepth ih => rw [← processWithin_succ _ origin path run hdepth, ih]

/-- Processing a file, said without a depth. -/
theorem processFile_eq (pass : Pass) (origin : Option String) (path : String) (run : Run) :
    s.processFile pass origin path run =
      let file := s.normalizeFrom origin path
      if !run.files.contains file || run.visited.contains file then .done run none
      else s.visit pass (s.processFile pass (some file)) file
        { run.logAll [.processing file origin] with visited := run.visited ++ [file] } := by
  dsimp only
  by_cases h : Fresh run.files run.visited (s.normalizeFrom origin path)
  · rw [if_neg (by rw [Run.fresh_iff.mpr h]; exact Bool.false_ne_true)]
    obtain ⟨depth, hdepth⟩ := Nat.exists_eq_add_one.mpr (Run.unvisited_pos h)
    have hleft : (entering origin _ run).unvisited < run.unvisited := unvisited_entering h
    rw [processFile, hdepth, processWithin_fresh h]
    have hsame : ∀ included (later : Run), later.unvisited ≤ depth →
        s.processWithin pass depth (some (s.normalizeFrom origin path)) included later =
          s.processFile pass (some (s.normalizeFrom origin path)) included later :=
      fun included later hlater => processWithin_eq_processFile hlater _ included
    exact visit_congr
      (Run.keeps_unvisited pass (Run.grows_stepwise.processWithin depth _) depth) hsame rfl
      (unvisited_load (by omega))
  · rw [if_pos (by rwa [← Bool.not_eq_false, Run.fresh_iff])]
    exact processWithin_stale h _

end Session

end SymbolGraph
