import SymbolGraph.Proofs.Pass
import SymbolGraph.Proofs.Path

/-!
# `Proofs.Process` — a run on a fresh state, in closed form

A run that is done has a TOUR: the steps of a traversal that starts from the
configured files, in their order, and comes to its end.  There is at most one
tour, and it is the same whether declarations are collected first or not.  What
the run leaves behind is read off the tour:

    visited         the files that it enters
    report          the files that it leaves, each with what went wrong there
    symbols         what its acts declare, from the tables `known` at its start
    store           what its acts write, from the same tables
    parses          the files that it enters and that can be read (in one pass)

A run halts if and only if a configured file cannot be read.  It then has a
traversal that ends at such a file, and leaves behind what the steps up to there
have done; in two passes the first one halts, which writes nothing.
-/

namespace SymbolGraph

open Step

namespace Session

variable {s : Session} {paths : List String} {steps : List Step}

/-- The configured files, each as often as it is given. -/
def configured (s : Session) (paths : List String) : List String := paths.map s.normalize

theorem normalizeFrom_configured {file : String} (h : file ∈ s.configured paths) :
    s.normalizeFrom none file = file := by
  obtain ⟨path, -, rfl⟩ := List.mem_map.mp h
  exact Path.normalize_ofText_normalize s.root fun _ => Path.isSegment_of_mem_ofText

/-! ## Tours -/

/-- What is to be done at the start: follow the configured paths. -/
def roots (s : Session) (paths : List String) : List Task :=
  (s.configured paths).map (.follow none)

/-- The steps of a pass over the configured files that comes to its end. -/
def Tour (s : Session) (paths : List String) (steps : List Step) : Prop :=
  Traversal s (s.configured paths) [] (s.roots paths) steps none

namespace Tour

theorem unique {more : List Step} (h : s.Tour paths steps) (h' : s.Tour paths more) :
    steps = more := (Traversal.unique h h').1

/-- The tour does not ask how many passes there are. -/
theorem withPasses (h : s.Tour paths steps) (twoPass : Bool) :
    ({ s with twoPass } : Session).Tour paths steps :=
  Traversal.withPasses h twoPass

theorem mem_entered (h : s.Tour paths steps) {file : String} :
    file ∈ entered steps ↔ file ∈ s.configured paths := by
  constructor
  · intro hfile
    exact (h.fresh_of_mem_entered hfile).1
  · intro hfile
    have hroot : .follow none file ∈ s.roots paths := List.mem_map.mpr ⟨file, hfile, rfl⟩
    have hnormal := normalizeFrom_configured hfile
    simpa [hnormal] using h.mem_of_follow hroot (hnormal.symm ▸ hfile)

theorem readable (h : s.Tour paths steps) {file : String} (hfile : file ∈ s.configured paths) :
    ¬ s.Unreadable file := h.readable_of_mem_entered (h.mem_entered.mpr hfile)

theorem announced (h : s.Tour paths steps) : Announced ((Step.acts steps).map Act.action) := by
  refine h.acts_announced ?_
  unfold roots
  induction s.configured paths with
  | nil => trivial
  | cons file rest ih => exact ⟨fun _ => nofun, ih⟩

/-- The acts of each configured file, in their own order. -/
theorem acts_filter (h : s.Tour paths steps) (file : String) :
    (Step.acts steps).filter (·.file = file) =
      if file ∈ s.configured paths then s.acts file else [] := by
  have hroots : (s.roots paths).filterMap Task.act? = [] := by
    simp [roots, List.filterMap_map, Function.comp_def, Task.act?]
  have hnone : ∀ a, .act a ∈ s.roots paths → a.file ∈ ([] : List String) := by
    intro a ha
    obtain ⟨_, -, heq⟩ := List.mem_map.mp ha
    cases heq
  simpa [hroots, h.mem_entered] using Traversal.acts_filter h hnone file

theorem mem_acts (h : s.Tour paths steps) {a : Act} :
    a ∈ Step.acts steps ↔ ∃ file ∈ s.configured paths, a ∈ s.acts file := by
  constructor
  · intro ha
    have hfilter : a ∈ (Step.acts steps).filter (·.file = a.file) := by simpa using ha
    rw [h.acts_filter] at hfilter
    split at hfilter
    · next hfile => exact ⟨a.file, hfile, hfilter⟩
    · exact absurd hfilter List.not_mem_nil
  · rintro ⟨file, hfile, ha⟩
    have hfilter := h.acts_filter file
    rw [if_pos hfile] at hfilter
    rw [← hfilter] at ha
    exact (List.mem_filter.mp ha).1

end Tour

/-! ## The tables at the start of the emitting pass -/

/-- What is declared before anything is written. -/
def known (s : Session) (acts : List Act) : Symbols :=
  if s.twoPass then Act.declareAll acts {} else {}

/-! ## Done or halted -/

/-- What a run leaves behind. -/
structure Finished (s : Session) (steps : List Step) (run : Run) (report : Report) : Prop where
  visited : run.visited = entered steps
  results : ∀ r ∈ report, r.error = s.failure? r.path
  counts : ∀ r ∈ report, r.CountedBy (s.known (Step.acts steps)) steps
  report : report.map (·.path) = left steps
  symbols : run.symbols = Act.declareAll (Step.acts steps) (s.known (Step.acts steps))
  store : run.store = (Store.recordAll
    (Act.emitAll (s.known (Step.acts steps)) (Step.acts steps)) {}).flush
  cache : run.cache = []
  parses : s.twoPass = false →
    run.parses.toList = (entered steps).filter fun file => (s.readFile file).isOk

namespace Finished

variable {run : Run} {report : Report} (h : s.Finished steps run report)
include h

/-- Each configured file is reported once. -/
theorem nodup_report (htour : s.Tour paths steps) : (report.map (·.path)).Nodup := by
  rw [h.report]
  exact htour.left_perm_entered.nodup_iff.mpr htour.nodup_entered

theorem mem_report (htour : s.Tour paths steps) {file : String} :
    file ∈ report.map (·.path) ↔ file ∈ s.configured paths := by
  rw [h.report]
  exact htour.left_perm_entered.mem_iff.trans htour.mem_entered

theorem get? (path : String) : run.store.get? path =
    Definition.lastUnder path (Act.definitions (s.known (Step.acts steps)) (Step.acts steps)) := by
  rw [h.store]
  exact (Store.get?_recordAll path _ {}).trans Option.or_none

theorem isSome_get? {path : String} : (run.store.get? path).isSome ↔
    ∃ d ∈ Act.definitions (s.known (Step.acts steps)) (Step.acts steps), d.key.path = path := by
  rw [h.get?]
  exact Definition.lastUnder_isSome

theorem distinct : run.store.Distinct := by
  rw [h.store]
  exact Store.distinct_recordAll _ List.nodup_nil

theorem written : run.store.written.Perm
    (Act.definitions (s.known (Step.acts steps)) (Step.acts steps)) := by
  rw [h.store]
  have hall := Store.written_recordAll
    (Act.emitAll (s.known (Step.acts steps)) (Step.acts steps)) {}
  rwa [show ({} : Store).written = [] from rfl, List.append_nil] at hall

theorem references : run.store.references =
    (Act.references (s.known (Step.acts steps)) (Step.acts steps)).foldl Reference.addTo [] := by
  rw [h.store]
  exact Store.references_recordAll _ {}

end Finished

section Emit

variable {ordered : List String} {run after : Run} (hvalid : s.CacheValid run.cache)
include hvalid

theorem emit_done {report : Report} (h : s.emit ordered run = .done after report) :
    ∃ steps mid, Traversal s run.files run.visited (ordered.map (.follow none)) steps none ∧
      Effect s .emitting steps { run with report := [] } mid ∧ report = mid.report ∧
      after.visited = mid.visited ∧ after.store = mid.store.flush ∧ after.parses = mid.parses ∧
      after.symbols = mid.symbols ∧ after.cache = [] := by
  have hfollows : (s.runPass .emitting ordered { run with report := [] }).Follows s .emitting
      (ordered.map (.follow none)) { run with report := [] } := runPass_follows ordered hvalid
  unfold emit at h
  cases houtcome : s.runPass .emitting ordered { run with report := [] } with
  | done mid value =>
      rw [houtcome] at h hfollows
      obtain ⟨steps, htraversal, heffect⟩ := hfollows
      cases h
      exact ⟨steps, mid, htraversal, heffect, rfl, rfl, rfl, rfl, rfl, rfl⟩
  | halted mid e =>
      rw [houtcome] at h
      cases h

theorem emit_halted {e : ReadError} (h : s.emit ordered run = .halted after e) :
    ∃ steps,
      Traversal s run.files run.visited (ordered.map (.follow none)) steps (some e.file) ∧
      Effect s .emitting steps { run with report := [] } after ∧
      s.content e.file = .unreadable e.reason := by
  have hfollows : (s.runPass .emitting ordered { run with report := [] }).Follows s .emitting
      (ordered.map (.follow none)) { run with report := [] } := runPass_follows ordered hvalid
  unfold emit at h
  cases houtcome : s.runPass .emitting ordered { run with report := [] } with
  | done mid value =>
      rw [houtcome] at h
      cases h
  | halted mid e =>
      rw [houtcome] at h hfollows
      cases h
      exact hfollows

end Emit

/-- What a run leaves behind that halts: nothing is written, nor reported, where
declarations are collected first. -/
structure Halted (s : Session) (steps : List Step) (run : Run) (e : ReadError) : Prop where
  content : s.content e.file = .unreadable e.reason
  visited : run.visited = entered steps
  report : run.report.map (·.path) = if s.twoPass then [] else left steps
  store : run.store =
    Store.recordAll (if s.twoPass then [] else Act.emitAll {} (Step.acts steps)) {}
  valid : s.CacheValid run.cache

/-- The state in which the emitting pass starts. -/
structure Ready (s : Session) (paths : List String) (run : Run) : Prop where
  files : run.files = s.configured paths
  visited : run.visited = []
  symbols : ∀ steps, s.Tour paths steps → run.symbols = s.known (Step.acts steps)
  store : run.store = {}
  valid : s.CacheValid run.cache
  toured : s.twoPass = true → ∃ steps, s.Tour paths steps
  untouched : s.twoPass = false → run.symbols = {} ∧ run.cache = [] ∧ run.parses = #[]

/-- The state in which the first of two passes starts. -/
def collectingStart (s : Session) (paths : List String) (run : Run) : Run :=
  Run.logAll { run with files := s.configured paths } [.collecting (s.configured paths).length]

theorem process_twoPass (htwo : s.twoPass = true) (paths : List String) (run : Run) :
    s.process paths run =
      match s.runPass .collecting (s.configured paths) (s.collectingStart paths run) with
      | .halted mid e => Outcome.halted mid e
      | .done mid _ => s.emit (s.configured paths) { mid with visited := [] } := by
  rw [process, if_pos htwo]
  rfl

theorem process_onePass (hone : s.twoPass = false) (paths : List String) (run : Run) :
    s.process paths run = s.emit (s.configured paths) { run with files := s.configured paths } := by
  rw [process, if_neg (by simp [hone])]
  rfl

/-- The emitting pass starts, unless the collecting one halts. -/
theorem process_cases (s : Session) (paths : List String) :
    (∃ run e steps, s.process paths {} = .halted run e ∧
      Traversal s (s.configured paths) [] (s.roots paths) steps (some e.file) ∧
      s.Halted steps run e) ∨
    ∃ run, s.Ready paths run ∧ s.process paths {} = s.emit (s.configured paths) run := by
  cases htwo : s.twoPass with
  | true =>
      let start := s.collectingStart paths {}
      have hfollows : (s.runPass .collecting (s.configured paths) start).Follows s .collecting
          (s.roots paths) start := runPass_follows _ s.cacheValid_nil
      rw [process_twoPass htwo]
      cases houtcome : s.runPass .collecting (s.configured paths) start with
      | halted mid e =>
          rw [houtcome] at hfollows
          obtain ⟨steps, htraversal, heffect, hreason⟩ := hfollows
          refine Or.inl ⟨mid, e, steps, rfl, htraversal, hreason, heffect.visited, ?_, ?_,
            heffect.valid⟩
          · rw [heffect.report, if_pos htwo]
            rfl
          · rw [heffect.store, if_pos htwo]
            rfl
      | done mid value =>
          rw [houtcome] at hfollows
          obtain ⟨steps, htour, heffect⟩ := hfollows
          refine Or.inr ⟨{ mid with visited := [] }, ?_, rfl⟩
          refine ⟨heffect.files, rfl, fun more hmore => ?_, heffect.store, heffect.valid,
            fun _ => ⟨steps, htour⟩, ?_⟩
          · rw [← Tour.unique htour hmore, known, if_pos htwo]
            exact heffect.symbols
          · intro hone
            rw [htwo] at hone
            cases hone
  | false =>
      have hone : ¬ s.twoPass = true := by rw [htwo]; exact Bool.false_ne_true
      refine Or.inr ⟨{ files := s.configured paths }, ?_, process_onePass htwo paths {}⟩
      refine ⟨rfl, rfl, fun _ _ => ?_, rfl, s.cacheValid_nil, fun h => absurd h hone,
        fun _ => ⟨rfl, rfl, rfl⟩⟩
      rw [known, if_neg hone]

theorem process_done {run : Run} {report : Report} (h : s.process paths {} = .done run report) :
    ∃ steps, s.Tour paths steps ∧ s.Finished steps run report := by
  rcases s.process_cases paths with ⟨_, _, _, heq, -⟩ | ⟨start, hready, heq⟩
  · rw [heq] at h
    cases h
  · rw [heq] at h
    obtain ⟨steps, last, htour, heffect, rfl, hvisited, hstore, hparses, hsymbols, hcache⟩ :=
      emit_done hready.valid h
    rw [hready.files, hready.visited] at htour
    refine ⟨steps, htour, ?_, fun r hr => ?_, fun r hr => ?_, ?_, ?_, ?_, hcache, fun hone => ?_⟩
    · rw [hvisited, heffect.visited, hready.visited, List.nil_append]
    · exact (heffect.results r hr).resolve_left List.not_mem_nil
    · exact hready.symbols steps htour ▸ (heffect.counts r hr).resolve_left List.not_mem_nil
    · rw [heffect.report]
      rfl
    · rw [hsymbols, heffect.symbols, hready.symbols steps htour]
    · rw [hstore, heffect.store, hready.store, hready.symbols steps htour]
      rfl
    · obtain ⟨-, hempty, hnone⟩ := hready.untouched hone
      rw [hparses, heffect.parses, hempty, hnone]
      rfl

/-- The traversal of a run that halts. -/
theorem process_traversal {run : Run} {e : ReadError}
    (h : s.process paths {} = .halted run e) :
    ∃ steps, Traversal s (s.configured paths) [] (s.roots paths) steps (some e.file) ∧
      s.Halted steps run e := by
  rcases s.process_cases paths with ⟨_, _, steps, heq, hhalted⟩ | ⟨start, hready, heq⟩
  · rw [heq] at h
    cases h
    exact ⟨steps, hhalted⟩
  · rw [heq] at h
    obtain ⟨steps, htraversal, heffect, hreason⟩ := emit_halted hready.valid h
    rw [hready.files, hready.visited] at htraversal
    -- The collecting pass would have halted at the file before.
    have hone : s.twoPass = false := by
      by_contra htwo
      rw [Bool.not_eq_false] at htwo
      obtain ⟨tour, htour⟩ := hready.toured htwo
      obtain ⟨hfile, hun⟩ := htraversal.unreadable_of_halted
      exact htour.readable hfile hun
    refine ⟨steps, htraversal, hreason, ?_, ?_, ?_, heffect.valid⟩
    · rw [heffect.visited, hready.visited, List.nil_append]
    · rw [heffect.report, hone]
      rfl
    · rw [heffect.store, hready.store, (hready.untouched hone).1, hone]
      rfl

theorem process_halted {run : Run} {e : ReadError} (h : s.process paths {} = .halted run e) :
    e.file ∈ s.configured paths ∧ s.Unreadable e.file := by
  obtain ⟨steps, htraversal, -⟩ := process_traversal h
  exact htraversal.unreadable_of_halted

/-- A run is done if and only if every configured file can be read. -/
theorem process_done_iff (s : Session) (paths : List String) :
    (∃ run report, s.process paths {} = .done run report) ↔
      ∀ file ∈ s.configured paths, ¬ s.Unreadable file := by
  constructor
  · rintro ⟨run, report, h⟩ file hfile
    obtain ⟨steps, htour, -⟩ := process_done h
    exact htour.readable hfile
  · intro hread
    cases h : s.process paths {} with
    | done run report => exact ⟨run, report, rfl⟩
    | halted run e =>
        obtain ⟨hfile, hun⟩ := process_halted h
        exact absurd hun (hread e.file hfile)

end Session

end SymbolGraph
