import SymbolGraph.Proofs.Definitions

/-!
# `Proofs.TreeCache` — two passes parse a file once, if it parses

The collecting pass leaves the tree of every file that parses in the cache, and the
emitting pass takes it out again.  So the second pass asks the sources for nothing but
the files that failed in the first:

    the two passes make the same steps                       `Tour.unique`
    what is cached is not read again                         `fetch_later`
    nor does a pass ask for anything else                    `runPass_later`

The last one is said with OTHER sources: between the passes, every file that has parsed
may change or go away, and nothing comes of it.  What carries the induction is `Covered`:
of each file that is still to be visited, the cache has the tree or the sources agree.
-/

namespace SymbolGraph

open Step

/-- The sources say the same of a file. -/
structure Sources.Agree (a b : Sources) (file : String) : Prop where
  size : a.size file = b.size file
  read : a.read file = b.read file
  parse : ∀ bytes, a.parse bytes file = b.parse bytes file

namespace Session

variable {s : Session} {later : Sources}

/-! ## Sources that change between the passes -/

theorem readFile_later {file : String} (h : later.Agree s.sources file) :
    ({ s with sources := later } : Session).readFile file = s.readFile file := by
  simp only [readFile, h.size, h.read]

theorem fetch_later {file : String} {run : Run}
    (h : (run.cache.get? file).isSome ∨ later.Agree s.sources file) :
    s.fetch file run = ({ s with sources := later } : Session).fetch file run := by
  unfold fetch
  cases hcached : run.cache.get? file with
  | some p => rfl
  | none =>
      rw [hcached] at h
      have hagree := h.resolve_left Bool.false_ne_true
      simp only [readFile_later hagree, hagree.parse]

/-- Of every file that is still to be visited the cache has the tree, or the sources say
what they said before. -/
structure Covered (s : Session) (later : Sources) (run : Run) : Prop where
  valid : s.CacheValid run.cache
  fresh : ∀ file, Fresh run.files run.visited file →
    (run.cache.get? file).isSome ∨ later.Agree s.sources file

/-- A tree is taken out for a visit, and no file is visited again. -/
theorem Covered.effect {steps : List Step} {run after : Run} (h : s.Covered later run)
    (heffect : Effect s .emitting steps run after) : s.Covered later after where
  valid := heffect.valid
  fresh := by
    rintro file ⟨hfile, hnew⟩
    rw [heffect.files] at hfile
    rw [heffect.visited, List.mem_append, not_or] at hnew
    rw [heffect.cache, if_neg hnew.2]
    exact h.fresh file ⟨hfile, hnew.1⟩

theorem keeps_covered (file : Option String) (depth : Nat) :
    Run.Keeps .emitting (s.processWithin .emitting depth file)
      (fun run => s.Covered later run ∧ run.unvisited ≤ depth) where
  act a run h := by
    have heffect : Effect s .emitting [.act a] run _ := effect_act a h.1.valid
    exact ⟨h.1.effect heffect,
      Nat.le_trans (Run.unvisited_le (Run.grows_stepwise.act ..)) h.2⟩
  enter path run h := by
    obtain ⟨steps, stop, -, heffect⟩ :=
      (processWithin_follows depth file path run h.1.valid h.2).effect
    exact ⟨h.1.effect heffect,
      Nat.le_trans (Run.unvisited_le (Run.grows_stepwise.processWithin ..)) h.2⟩

theorem processWithin_later : ∀ (depth : Nat) (origin : Option String) (path : String) (run : Run),
    s.Covered later run → run.unvisited ≤ depth →
    s.processWithin .emitting depth origin path run =
      ({ s with sources := later } : Session).processWithin .emitting depth origin path run := by
  intro depth
  have hstale : ∀ (depth : Nat) {origin path} {run : Run},
      ¬ Fresh run.files run.visited (s.normalizeFrom origin path) →
      s.processWithin .emitting depth origin path run =
        ({ s with sources := later } : Session).processWithin .emitting depth origin path run := by
    intro depth origin path run h
    exact (processWithin_stale h depth).trans
      (processWithin_stale (s := { s with sources := later }) h depth).symm
  induction depth with
  | zero =>
      intro origin path run _ hdepth
      exact hstale 0 fun hfresh => absurd (Run.unvisited_pos hfresh) (by omega)
  | succ depth ih =>
      intro origin path run hcovered hdepth
      by_cases hfresh : Fresh run.files run.visited (s.normalizeFrom origin path)
      · have hvalid : s.CacheValid (entering origin (s.normalizeFrom origin path) run).cache :=
          hcovered.valid
        obtain ⟨log₁, parses, cache, hload, hparses, hcache, hvalid'⟩ :=
          load_eq .emitting (s.normalizeFrom origin path) hvalid
        refine (processWithin_fresh hfresh depth).trans
          (Eq.trans ?_ (processWithin_fresh (s := { s with sources := later }) hfresh depth).symm)
        refine visit_congr (keeps_covered _ depth) (fun path run h => ih _ path run h.1 h.2)
          (fetch_later (hcovered.fresh _ hfresh)) fun log => ?_
        have henter : Effect s .emitting [.enter _] run
            { run with log, parses, cache, visited := run.visited ++ [_] } :=
          effect_enter hparses hcache hvalid'
        have hleft := Run.unvisited_lt henter.files henter.visited hfresh
        rw [hload]
        exact ⟨hcovered.effect henter, Nat.le_of_lt_succ (Nat.lt_of_lt_of_le hleft hdepth)⟩
      · exact hstale _ hfresh

/-- An emitting pass asks the sources for no file that the cache has. -/
theorem runPass_later : ∀ (paths : List String) {run : Run}, s.Covered later run →
    s.runPass .emitting paths run =
      ({ s with sources := later } : Session).runPass .emitting paths run
  | [], _, _ => rfl
  | path :: rest, run, hcovered => by
      have hfile : s.processFile .emitting none path run =
          ({ s with sources := later } : Session).processFile .emitting none path run :=
        processWithin_later _ none path run hcovered (Nat.le_refl _)
      obtain ⟨steps, stop, -, heffect⟩ : ∃ steps stop, _ ∧
          Effect s .emitting steps run (s.processFile .emitting none path run).run :=
        processFile_effect none path hcovered.valid
      rw [runPass_cons, runPass_cons, ← hfile]
      cases houtcome : s.processFile .emitting none path run with
      | done mid value =>
          rw [houtcome] at heffect
          exact runPass_later rest (hcovered.effect heffect)
      | halted mid e => rfl

theorem emit_later (paths : List String) {run : Run} (hcovered : s.Covered later run) :
    s.emit paths run = ({ s with sources := later } : Session).emit paths run := by
  have hall : s.runPass .emitting paths { run with report := [] } = _ :=
    runPass_later paths ⟨hcovered.valid, hcovered.fresh⟩
  rw [emit, emit, hall]

/-! ## How often a file is parsed -/

/-- How often two passes parse a file: once if it parses, twice if it does not, and
never if there are no bytes to parse. -/
def attempts (s : Session) (file : String) : Nat :=
  match s.readFile file with
  | .error _ => 0
  | .ok bytes =>
      match (s.sources.parse bytes file).2 with
      | .ok _ => 1
      | .error _ => 2

theorem attempts_eq (s : Session) (file : String) : s.attempts file =
    (if (s.readFile file).isOk then 1 else 0) +
      (if (s.parsed? file).isNone && (s.readFile file).isOk then 1 else 0) := by
  unfold attempts parsed? content
  cases hread : s.readFile file with
  | error other => simp [Except.isOk, Except.toBool]
  | ok bytes =>
      cases hparse : (s.sources.parse bytes file).2 with
      | ok p => simp [hparse, Except.isOk, Except.toBool]
      | error e => simp [hparse, Except.isOk, Except.toBool]

theorem attempts_of_large {file : String} {size : Nat} (hsize : s.sources.size file = .ok size)
    (hlarge : s.sizeLimit < size) : s.attempts file = 0 := by
  simp only [attempts, readFile, hsize, if_pos hlarge]

/-- The files that have bytes to parse, and those of them that do not parse. -/
theorem count_attempts {files : List String} (h : files.Nodup) (file : String) :
    (files.filter (fun file => (s.readFile file).isOk) ++
        files.filter fun file => (s.parsed? file).isNone && (s.readFile file).isOk).count file =
      if file ∈ files then s.attempts file else 0 := by
  rw [List.count_append, (h.filter _).count, (h.filter _).count]
  simp only [List.mem_filter]
  by_cases hfile : file ∈ files
  · simp only [hfile, true_and, if_true, attempts_eq]
  · simp only [hfile, false_and, if_false]

/-! ## The two passes -/

section Passes

variable {paths : List String} {steps : List Step} {mid run : Run} {report : Report}

/-- The state between the passes. -/
structure Collected (s : Session) (paths : List String) (steps : List Step) (mid : Run) : Prop where
  tour : s.Tour paths steps
  done : s.runPass .collecting (s.configured paths) (s.collectingStart paths {}) = .done mid ()
  effect : Effect s .collecting steps (s.collectingStart paths {}) mid

theorem exists_collected (htwo : s.twoPass = true)
    (hdone : s.process paths {} = .done run report) : ∃ steps mid, s.Collected paths steps mid ∧
      s.emit (s.configured paths) { mid with visited := [] } = .done run report := by
  have hfollows : (s.runPass .collecting (s.configured paths)
      (s.collectingStart paths {})).Follows s .collecting (s.roots paths)
        (s.collectingStart paths {}) := runPass_follows _ s.cacheValid_nil
  rw [process_twoPass htwo] at hdone
  cases hcollected : s.runPass .collecting (s.configured paths) (s.collectingStart paths {}) with
  | halted mid e =>
      rw [hcollected] at hdone
      cases hdone
  | done mid value =>
      rw [hcollected] at hdone hfollows
      obtain ⟨steps, htour, heffect⟩ := hfollows
      exact ⟨steps, mid, ⟨htour, hcollected, heffect⟩, hdone⟩

namespace Collected

variable (h : s.Collected paths steps mid)
include h

theorem get?_cache (file : String) : mid.cache.get? file =
    if file ∈ s.configured paths then s.parsed? file else none := by
  rw [h.effect.cache]
  simp only [h.tour.mem_entered]
  rfl

theorem covered (hagree : ∀ file ∈ s.configured paths, s.parsed? file = none →
    later.Agree s.sources file) : s.Covered later { mid with visited := [] } := by
  refine ⟨h.effect.valid, fun file hfresh => ?_⟩
  have hfiles : mid.files = s.configured paths := h.effect.files
  have hfile : file ∈ s.configured paths := hfiles ▸ hfresh.1
  cases hparsed : s.parsed? file with
  | some p =>
      left
      rw [h.get?_cache, if_pos hfile, hparsed]
      rfl
  | none => exact Or.inr (hagree file hfile hparsed)

/-- The emitting pass parses what has not parsed before. -/
theorem parses (hemit : s.emit (s.configured paths) { mid with visited := [] } =
    .done run report) : run.parses.toList =
      (entered steps).filter (fun file => (s.readFile file).isOk) ++
        (entered steps).filter fun file =>
          (s.parsed? file).isNone && (s.readFile file).isOk := by
  have hvalid : s.CacheValid ({ mid with visited := [] } : Run).cache := h.effect.valid
  have hfiles : mid.files = s.configured paths := h.effect.files
  have hcollecting : mid.parses.toList =
      (entered steps).filter fun file => (s.readFile file).isOk := h.effect.parses
  obtain ⟨again, last, hagain, hlast, -, -, -, hparses, -⟩ := emit_done hvalid hemit
  rw [hfiles] at hagain
  obtain rfl : steps = again := Tour.unique h.tour hagain
  rw [hparses, hlast.parses, hcollecting]
  congr 1
  refine List.filter_congr fun file hfile => ?_
  rw [h.get?_cache, if_pos (h.tour.mem_entered.mp hfile)]

theorem count_parses (hemit : s.emit (s.configured paths) { mid with visited := [] } =
    .done run report) (file : String) : run.parses.toList.count file =
      if file ∈ s.configured paths then s.attempts file else 0 := by
  rw [h.parses hemit, count_attempts h.tour.nodup_entered]
  simp only [h.tour.mem_entered]

end Collected

end Passes

/-- How a run in two passes has gone: `mid` is the state between the passes. -/
structure TreesKept (s : Session) (paths : List String) (steps : List Step) (mid run : Run)
    (report : Report) : Prop where
  /-- Both passes make the same steps. -/
  collecting : s.Collected paths steps mid
  emitting : s.Finished steps run report
  /-- Each file that parses leaves its tree between the passes. -/
  cached : ∀ file, mid.cache.get? file =
    if file ∈ s.configured paths then s.parsed? file else none
  /-- The second pass works with these trees: it does not see it if the files change. -/
  later : ∀ later : Sources, (∀ file ∈ s.configured paths, s.parsed? file = none →
      later.Agree s.sources file) →
    ({ s with sources := later } : Session).emit (s.configured paths) { mid with visited := [] } =
      .done run report
  parses : ∀ file, run.parses.toList.count file =
    if file ∈ s.configured paths then s.attempts file else 0
  large : ∀ file size, s.sources.size file = .ok size → s.sizeLimit < size →
    file ∉ run.parses.toList
  reported : (report.map (·.path)).Nodup ∧
    ∀ file, file ∈ report.map (·.path) ↔ file ∈ s.configured paths
  cache : run.cache = []

/-- In two passes each configured file is parsed once if it parses, twice if the parser
refuses it and never if it is too large, and the second pass makes the steps of the first,
on its trees. -/
theorem two_passes_keep_trees {paths : List String} {run : Run} {report : Report}
    (htwo : s.twoPass = true) (hdone : s.process paths {} = .done run report) :
    ∃ steps mid, s.TreesKept paths steps mid run report := by
  obtain ⟨steps, mid, hcollected, hemit⟩ := exists_collected htwo hdone
  obtain ⟨again, htour, hfinished⟩ := process_done hdone
  obtain rfl : steps = again := Tour.unique hcollected.tour htour
  refine ⟨steps, mid, hcollected, hfinished, hcollected.get?_cache, fun later hagree => ?_,
    hcollected.count_parses hemit, fun file size hsize hlarge => ?_,
    ⟨hfinished.nodup_report htour, fun _ => hfinished.mem_report htour⟩, hfinished.cache⟩
  · exact (emit_later _ (hcollected.covered hagree)).symm.trans hemit
  · rw [← List.count_eq_zero, hcollected.count_parses hemit, attempts_of_large hsize hlarge,
      ite_self]

/-! Between the passes, the file that parses goes away. -/

def mixedLater : Sources :=
  { mixedUnit.sources with
    read := fun path => if path = "user.m" then .error (.system "gone") else .ok default }

theorem two_passes_keep_trees_mixed :
    mixedUnit.twoPass = true ∧
    ∃ run report, mixedUnit.process ["user.m", "bad.m", "big.m"] {} = .done run report ∧
      ∃ steps mid, mixedUnit.TreesKept ["user.m", "bad.m", "big.m"] steps mid run report ∧
        run.parses.toList.count "user.m" = 1 ∧ run.parses.toList.count "bad.m" = 2 ∧
        "big.m" ∉ run.parses.toList ∧
        ({ mixedUnit with sources := mixedLater } : Session).emit
          (mixedUnit.configured ["user.m", "bad.m", "big.m"]) { mid with visited := [] } =
            .done run report := by
  obtain ⟨run, report, hdone⟩ := mixedUnit_done ["user.m", "bad.m", "big.m"]
  obtain ⟨steps, mid, hkept⟩ := two_passes_keep_trees rfl hdone
  have hfiles : mixedUnit.configured ["user.m", "bad.m", "big.m"] =
      ["user.m", "bad.m", "big.m"] := by decide
  refine ⟨rfl, run, report, hdone, steps, mid, hkept, ?_, ?_,
    hkept.large "big.m" 2000 rfl (by decide), hkept.later mixedLater fun file hfile hnone => ?_⟩
  · rw [hkept.parses, hfiles]
    rfl
  · rw [hkept.parses, hfiles]
    rfl
  · have huser : file ≠ "user.m" := by
      rintro rfl
      cases hnone
    exact ⟨rfl, if_neg huser, fun _ => rfl⟩

end Session

end SymbolGraph
