import Mathlib.Data.List.Induction
import SymbolGraph.Proofs.Definitions
import SymbolGraph.Proofs.Halt

/-!
# `Proofs.Calls` — one call after another on the same state

A state outlives the call that made it, also a call that halted, and the next call starts
from it: from the files visited so far, the tables, the store and the trees that were kept.

In ONE PASS a call is one traversal, from the files visited before it (`process_walked`).
It keeps no tree, so nothing goes stale when the files change between two calls.  A call
that halts leaves the visits around the refused file begun and not ended, and no later
call begins them again.

In TWO PASSES a call forgets the visits of its first pass before the second one, which
therefore visits and reports every configured file, whatever calls came before
(`emit_accounts`).  A first call that halts does so in its first pass, and has written
nothing.
-/

namespace SymbolGraph

open Step

namespace Session

variable {s : Session} {paths : List String} {run after : Run}

/-! ## One pass, from any state -/

/-- What a call in one pass does to the state that it finds. -/
structure Walked (s : Session) (paths : List String) (before : Run) (steps : List Step)
    (stop : Option String) (after : Run) : Prop where
  traversal : Traversal s (s.configured paths) before.visited (s.roots paths) steps stop
  visited : after.visited = before.visited ++ entered steps
  report : after.report.map (·.path) = left steps
  symbols : after.symbols = Act.declareAll (Step.acts steps) before.symbols
  store : after.store = before.store.recordAll (Act.emitAll before.symbols (Step.acts steps)) ∨
    after.store = (before.store.recordAll (Act.emitAll before.symbols (Step.acts steps))).flush
  cache : after.cache = []

theorem cache_of_effect {steps : List Step} (h : Effect s .emitting steps run after)
    (hcache : run.cache = []) : after.cache = [] := by
  refine Dict.eq_nil_of_get? fun file => ?_
  rw [h.cache, hcache]
  exact ite_self none

theorem process_walked (hone : s.twoPass = false) (hcache : run.cache = []) (paths : List String) :
    ∃ steps, match s.process paths run with
      | .done after report => s.Walked paths run steps none after ∧ after.report = report
      | .halted after e => s.Walked paths run steps (some e.file) after := by
  let start : Run := { run with files := s.configured paths, report := [] }
  have hstart : start.cache = [] := hcache
  have hfollows : (s.runPass .emitting (s.configured paths) start).Follows s .emitting
      (s.roots paths) start := runPass_follows _ (hstart ▸ s.cacheValid_nil)
  rw [process_onePass hone]
  unfold emit
  cases houtcome : s.runPass .emitting (s.configured paths) start with
  | done mid value =>
      rw [houtcome] at hfollows
      obtain ⟨steps, htraversal, heffect⟩ := hfollows
      exact ⟨steps, ⟨htraversal, heffect.visited, heffect.report, heffect.symbols,
        Or.inr (congrArg Store.flush heffect.store), rfl⟩, rfl⟩
  | halted mid e =>
      rw [houtcome] at hfollows
      obtain ⟨steps, htraversal, heffect, -⟩ := hfollows
      exact ⟨steps, htraversal, heffect.visited, heffect.report, heffect.symbols,
        Or.inl heffect.store, cache_of_effect heffect hstart⟩

theorem exists_walked (hone : s.twoPass = false) (hcache : run.cache = []) (paths : List String) :
    ∃ steps stop, s.Walked paths run steps stop (s.process paths run).run := by
  obtain ⟨steps, h⟩ := process_walked hone hcache paths
  cases houtcome : s.process paths run with
  | done after report =>
      rw [houtcome] at h
      exact ⟨steps, none, h.1⟩
  | halted after e =>
      rw [houtcome] at h
      exact ⟨steps, some e.file, h⟩

theorem Walked.mem_visited_of_done {steps : List Step}
    (h : s.Walked paths run steps none after) {file : String} :
    file ∈ after.visited ↔ file ∈ run.visited ∨ file ∈ after.report.map (·.path) := by
  rw [h.visited, h.report, h.traversal.left_perm_entered.mem_iff, List.mem_append]

theorem Walked.mem_visited_of_configured {steps : List Step}
    (h : s.Walked paths run steps none after) {file : String} (hfile : file ∈ s.configured paths) :
    file ∈ after.visited := by
  have hroot : .follow none file ∈ s.roots paths := List.mem_map.mpr ⟨file, hfile, rfl⟩
  have hnormal := normalizeFrom_configured hfile
  have hmem := h.traversal.mem_of_follow hroot (hnormal.symm ▸ hfile)
  rwa [hnormal, ← h.visited] at hmem

/-- The visits that a call has begun and not ended are a chain of inclusions, down to the
file that cannot be read. -/
theorem Walked.open_chain {steps : List Step} {stop : String}
    (h : s.Walked paths run steps (some stop) after) : ∃ chain : List String,
      chain.IsChain (fun f g => g ∈ s.next (s.configured paths) f) ∧
      chain.getLast? = some stop ∧
      (∀ f ∈ chain, f ∉ run.visited ∧ f ∈ after.visited ∧ f ∉ after.report.map (·.path)) ∧
      ∀ {f}, f ∈ after.visited ↔ f ∈ run.visited ∨ f ∈ after.report.map (·.path) ∨ f ∈ chain := by
  obtain ⟨root, chain, -, hlinked, hlast, hperm⟩ := h.traversal.open_visits
  have hnodup := hperm.nodup_iff.mpr h.traversal.nodup_entered
  refine ⟨root :: chain, hlinked, hlast, fun f hf => ?_, ?_⟩
  · have hentered := hperm.mem_iff.mp (List.mem_append_right _ hf)
    refine ⟨(h.traversal.fresh_of_mem_entered hentered).2, ?_, fun hreport => ?_⟩
    · exact h.visited ▸ List.mem_append_right _ hentered
    · rw [h.report] at hreport
      exact (List.nodup_append.mp hnodup).2.2 f hreport f hf rfl
  · intro f
    rw [h.visited, h.report, List.mem_append, ← hperm.mem_iff, List.mem_append]

/-! ## Two passes, of which the first one halts -/

/-- Whatever is written from the state on goes to the store: by one file, or by a call
that is done. -/
structure WritesTo (s : Session) (run : Run) (store : Store) : Prop where
  file : ∀ origin path, ∃ steps stop,
    Traversal s run.files run.visited [.follow origin path] steps stop ∧
    (s.processPath origin path run).run.store =
      store.recordAll (Act.emitAll run.symbols (Step.acts steps))
  call : ∀ paths after report, s.process paths run = .done after report → ∃ first tour,
    Traversal s (s.configured paths) run.visited (s.roots paths) first none ∧
    s.Tour paths tour ∧
    after.store = (store.recordAll
      (Act.emitAll (Act.declareAll (Step.acts first) run.symbols) (Step.acts tour))).flush

theorem processPath_writes (hpass : run.pass = .emitting) (hvalid : s.CacheValid run.cache)
    (origin : Option String) (path : String) : ∃ steps stop,
      Traversal s run.files run.visited [.follow origin path] steps stop ∧
      (s.processPath origin path run).run.store =
        run.store.recordAll (Act.emitAll run.symbols (Step.acts steps)) := by
  obtain ⟨steps, stop, htraversal, heffect⟩ := processFile_effect origin path hvalid
  rw [processPath_of_pass hpass]
  exact ⟨steps, stop, htraversal, heffect.store⟩

theorem process_writes (htwo : s.twoPass = true) (hvalid : s.CacheValid run.cache)
    {report : Report} (h : s.process paths run = .done after report) : ∃ first tour,
      Traversal s (s.configured paths) run.visited (s.roots paths) first none ∧
      s.Tour paths tour ∧
      after.store = (run.store.recordAll
        (Act.emitAll (Act.declareAll (Step.acts first) run.symbols) (Step.acts tour))).flush := by
  let start := s.collectingStart paths run
  have hfollows : (s.runPass .collecting (s.configured paths) start).Follows s .collecting
      (s.roots paths) start := runPass_follows _ hvalid
  rw [process_twoPass htwo] at h
  cases houtcome : s.runPass .collecting (s.configured paths) start with
  | halted mid e =>
      rw [houtcome] at h
      cases h
  | done mid value =>
      rw [houtcome] at h hfollows
      obtain ⟨first, hfirst, hcollected⟩ := hfollows
      -- The trees of the first pass are kept, its visits are not.
      let forgotten : Run := { mid with visited := [] }
      have hkept : s.CacheValid forgotten.cache := hcollected.valid
      obtain ⟨tour, last, htour, hemitted, -, -, hstore, -⟩ := emit_done hkept h
      refine ⟨first, tour, hfirst, ?_, ?_⟩
      · have hfiles : forgotten.files = s.configured paths := hcollected.files
        rwa [hfiles] at htour
      · rw [hstore, hemitted.store]
        show (mid.store.recordAll (Act.emitAll mid.symbols (Step.acts tour))).flush = _
        rw [hcollected.store, hcollected.symbols]
        rfl

/-- A first call in two passes that halts has written nothing: no definition, no
reference and no collision.  The run emits again, as it did before the first pass, and what
is emitted later is written to the store. -/
theorem two_passes_halt_before_writing (htwo : s.twoPass = true) {e : ReadError}
    (h : s.process paths {} = .halted run e) :
    run.store.definitions = [] ∧ run.store.references = [] ∧ run.store.collisions = [] ∧
      run.store.flushed = false ∧ run.pass = .emitting ∧ s.WritesTo run {} := by
  obtain ⟨steps, -, hhalted⟩ := process_traversal h
  have hpass : (s.process paths {}).run.pass = .emitting := pass_process paths {}
  rw [h] at hpass
  have hstore : run.store = {} := by
    rw [hhalted.store, if_pos htwo]
    rfl
  have hwrites : s.WritesTo run run.store :=
    ⟨processPath_writes hpass hhalted.valid, fun _ _ _ => process_writes htwo hhalted.valid⟩
  rw [hstore] at hwrites ⊢
  exact ⟨rfl, rfl, rfl, rfl, hpass, hwrites⟩

/-- A file that includes another one, which is refused. -/
def refusingUnit : Session :=
  { mutualUnit with
    sources := { mutualUnit.sources with
      size := fun path => if path = "foo.h" then .error (.system "gone") else .ok 100 } }

theorem two_passes_halt_before_writing_refused :
    ∃ run e, refusingUnit.process ["user.m", "foo.h"] {} = .halted run e ∧
      run.visited = ["user.m", "foo.h"] ∧ run.store.definitions = [] ∧
      run.store.references = [] ∧ run.store.collisions = [] ∧ run.pass = .emitting ∧
      refusingUnit.WritesTo run {} := by
  obtain ⟨run, e, h⟩ : ∃ run e,
      refusingUnit.process ["user.m", "foo.h"] {} = .halted run e := ⟨_, _, rfl⟩
  obtain ⟨hdefinitions, hreferences, hcollisions, -, hpass, hwrites⟩ :=
    two_passes_halt_before_writing rfl h
  refine ⟨run, e, h, ?_, hdefinitions, hreferences, hcollisions, hpass, hwrites⟩
  cases h
  decide

end Session

/-! ## Two passes report every configured file -/

namespace Run

/-- What is visited between the two states is reported by then. -/
structure Accounts (before after : Run) : Prop where
  report : before.report ⊆ after.report
  visited : ∀ file ∈ after.visited, file ∈ before.visited ∨ file ∈ after.report.map (·.path)

namespace Accounts

variable {a b c : Run}

theorem of_frame (hreport : b.report = a.report) (hvisited : b.visited = a.visited) :
    a.Accounts b := ⟨hreport ▸ List.Subset.refl _, fun _ h => Or.inl (hvisited ▸ h)⟩

theorem trans (h : a.Accounts b) (h' : b.Accounts c) : a.Accounts c := by
  refine ⟨List.Subset.trans h.report h'.report, fun file hfile => ?_⟩
  rcases h'.visited file hfile with hfile | hfile
  · exact (h.visited file hfile).imp_right fun hb => List.map_subset _ h'.report hb
  · exact Or.inr hfile

end Accounts

end Run

/-- A step that is done accounts for its visits. -/
def Outcome.Accounts {α : Type} (before : Run) : Outcome α → Prop
  | .done after _ => before.Accounts after
  | .halted _ _ => True

theorem Outcome.Accounts.from {α : Type} {a b : Run} {o : Outcome α} (ho : o.Accounts b)
    (h : a.Accounts b) : o.Accounts a := by
  cases o with
  | done => exact h.trans ho
  | halted => trivial

namespace Session

variable {s : Session} {paths : List String} {run after : Run}

theorem walk_accounts {follow : String → Run → Outcome (Option FileResult)} {file : String}
    (hfollow : ∀ path run, (follow path run).Accounts run) :
    ∀ (as : List Action) (w : Walker) (counts : Counts) (run : Run),
      (run.walk follow .emitting file as w counts).Accounts run := by
  intro as
  induction as with
  | nil => exact fun _ _ _ => .of_frame rfl rfl
  | cons a rest ih =>
      intro w counts run
      by_cases ha : ∃ path, a = .inclusion path
      · obtain ⟨path, rfl⟩ := ha
        have hpath := hfollow path run
        rw [Run.walk]
        cases houtcome : follow path run with
        | done mid value =>
            rw [houtcome] at hpath
            exact (ih w counts mid).from hpath
        | halted mid e => trivial
      · rw [Run.walk_cons fun path hpath => ha ⟨path, hpath⟩]
        obtain ⟨log, hact⟩ := run.act_frame .emitting ⟨file, w, a⟩
        refine (ih _ _ _).from ?_
        rw [hact]
        exact .of_frame rfl rfl

/-- The end of a visit accounts for it, and for the visits inside. -/
theorem conclude_accounts {mid : Run} {result : FileResult} (h : mid.Accounts after)
    (hreport : mid.report = run.report) (hvisited : mid.visited = run.visited ++ [result.path]) :
    (conclude .emitting after result).Accounts run := by
  refine ⟨fun r hr => List.mem_append_left _ (h.report (hreport ▸ hr)), fun file hfile => ?_⟩
  show _ ∨ file ∈ (after.report ++ [result]).map (·.path)
  rw [List.map_append, List.mem_append]
  rcases h.visited file hfile with hfile | hfile
  · rw [hvisited] at hfile
    exact (List.mem_append.mp hfile).imp_right Or.inr
  · exact Or.inr (Or.inl hfile)

theorem finish_accounts {mid : Run} {file : String} {o : Outcome Counts} (ho : o.Accounts mid)
    (hreport : mid.report = run.report) (hvisited : mid.visited = run.visited ++ [file])
    (issues : List Issue) : (finish .emitting file issues o).Accounts run := by
  cases o with
  | done => exact conclude_accounts ho hreport hvisited
  | halted => trivial

theorem visit_accounts {follow : String → Run → Outcome (Option FileResult)}
    (hfollow : ∀ path run, (follow path run).Accounts run) (origin : Option String)
    (file : String) (run : Run) :
    (s.visit .emitting follow file (entering origin file run)).Accounts run := by
  obtain ⟨log, parses, cache, hframe⟩ := s.load_frame .emitting file (entering origin file run)
  rcases hload : s.load .emitting file (entering origin file run) with ⟨mid, loaded⟩
  rw [hload] at hframe
  dsimp only at hframe
  subst hframe
  cases loaded with
  | unreadable reason =>
      rw [visit_of_unreadable hload]
      trivial
  | failed reason =>
      rw [visit_of_failed hload]
      exact conclude_accounts (.of_frame rfl rfl) rfl rfl
  | parsed p =>
      rw [visit_of_parsed hload]
      refine finish_accounts (walk_accounts hfollow _ _ _ _) ?_ ?_ p.issues
      · rfl
      · rfl

theorem processWithin_accounts (depth : Nat) :
    ∀ (origin : Option String) (path : String) (run : Run),
      (s.processWithin .emitting depth origin path run).Accounts run := by
  induction depth with
  | zero =>
      intro origin path run
      unfold processWithin
      simp only [ite_self]
      exact .of_frame rfl rfl
  | succ depth ih =>
      intro origin path run
      by_cases hfresh : Fresh run.files run.visited (s.normalizeFrom origin path)
      · rw [processWithin_fresh hfresh]
        exact visit_accounts (ih _) origin _ run
      · rw [processWithin_stale hfresh]
        exact .of_frame rfl rfl

theorem runPass_accounts : ∀ (paths : List String) (run : Run),
    (s.runPass .emitting paths run).Accounts run
  | [], run => .of_frame rfl rfl
  | path :: rest, run => by
      have hpath : (s.processFile .emitting none path run).Accounts run :=
        processWithin_accounts _ none path run
      rw [runPass_cons]
      cases houtcome : s.processFile .emitting none path run with
      | done mid value =>
          rw [houtcome] at hpath
          exact (runPass_accounts rest mid).from hpath
      | halted mid e => trivial

/-! A configured file has been visited when a pass over it is done. -/

theorem processFile_visits (pass : Pass) {origin : Option String} {path : String}
    (hfile : s.normalizeFrom origin path ∈ run.files) :
    s.normalizeFrom origin path ∈ (s.processFile pass origin path run).run.visited := by
  by_cases hvisited : s.normalizeFrom origin path ∈ run.visited
  · obtain ⟨more, hmore⟩ := (Run.grows_stepwise.processFile origin path run).visited
    rw [hmore]
    exact List.mem_append_left _ hvisited
  · rw [processFile_eq]
    dsimp only
    rw [if_neg (by simp [hfile, hvisited])]
    have hgrows : (entering origin (s.normalizeFrom origin path) run).Grows
        (s.visit pass (s.processFile pass (some (s.normalizeFrom origin path)))
          (s.normalizeFrom origin path) (entering origin (s.normalizeFrom origin path) run)).run :=
      Run.grows_stepwise.visit (Run.grows_stepwise.processFile _) _
    obtain ⟨more, hmore⟩ := hgrows.visited
    exact hmore.symm ▸ List.mem_append_left _ (List.mem_append_right _ (List.mem_singleton_self _))

theorem runPass_visits {pass : Pass} : ∀ (paths : List String) {run after : Run} {done : Unit},
    s.runPass pass paths run = .done after done → run.Grows after ∧
      ∀ path ∈ paths, s.normalizeFrom none path ∈ run.files →
        s.normalizeFrom none path ∈ after.visited
  | [], run, _, _, h => by
      cases h
      exact ⟨.refl run, fun _ => nofun⟩
  | path :: rest, run, after, _, h => by
      have hgrows : run.Grows (s.processFile pass none path run).run :=
        Run.grows_stepwise.processFile none path run
      rw [runPass_cons] at h
      cases houtcome : s.processFile pass none path run with
      | halted mid e =>
          rw [houtcome] at h
          cases h
      | done mid value =>
          rw [houtcome] at h hgrows
          obtain ⟨hlater, hrest⟩ := runPass_visits rest h
          refine ⟨hgrows.trans hlater, fun other hother hfile => ?_⟩
          rcases List.mem_cons.mp hother with rfl | hother
          · have hvisited := processFile_visits pass hfile
            rw [houtcome] at hvisited
            obtain ⟨more, hmore⟩ := hlater.visited
            exact hmore ▸ List.mem_append_left _ hvisited
          · exact hrest other hother (hgrows.files ▸ hfile)

/-- An emitting pass that starts with no file visited reports every configured one. -/
theorem emit_accounts {report : Report} (hfiles : run.files = s.configured paths)
    (hvisited : run.visited = []) (h : s.emit (s.configured paths) run = .done after report)
    {file : String} (hfile : file ∈ s.configured paths) : file ∈ report.map (·.path) := by
  have haccounts := s.runPass_accounts (s.configured paths) { run with report := [] }
  unfold emit at h
  cases houtcome : s.runPass .emitting (s.configured paths) { run with report := [] } with
  | halted mid e =>
      rw [houtcome] at h
      cases h
  | done mid value =>
      rw [houtcome] at h haccounts
      cases h
      have hnormal := normalizeFrom_configured hfile
      have hmid := (runPass_visits _ houtcome).2 file hfile (by rwa [hnormal, hfiles])
      rw [hnormal] at hmid
      refine (haccounts.visited file hmid).resolve_left fun hbefore => ?_
      rw [hvisited] at hbefore
      cases hbefore

theorem process_accounts (htwo : s.twoPass = true) {report : Report}
    (h : s.process paths run = .done after report) {file : String}
    (hfile : file ∈ s.configured paths) : file ∈ report.map (·.path) := by
  rw [process_twoPass htwo] at h
  cases houtcome : s.runPass .collecting (s.configured paths) (s.collectingStart paths run) with
  | halted mid e =>
      rw [houtcome] at h
      cases h
  | done mid value =>
      rw [houtcome] at h
      have hfiles : ({ mid with visited := [] } : Run).files = s.configured paths :=
        (runPass_visits _ houtcome).1.files
      exact emit_accounts hfiles rfl h hfile

end Session

/-! ## Histories -/

/-- A call: the paths that are given, and the files as they are by then. -/
structure Call where
  sources : Sources
  paths : List String

/-- One of the calls has the property, given the calls before it. -/
def Sometime (P : List Call → Call → Prop) (calls : List Call) : Prop :=
  ∃ before c later, calls = before ++ c :: later ∧ P before c

theorem not_sometime_nil {P : List Call → Call → Prop} : ¬ Sometime P [] := by
  rintro ⟨before, c, later, h, -⟩
  simp at h

theorem sometime_concat {P : List Call → Call → Prop} {calls : List Call} {c : Call} :
    Sometime P (calls ++ [c]) ↔ Sometime P calls ∨ P calls c := by
  constructor
  · rintro ⟨before, d, later, h, hP⟩
    rcases List.eq_nil_or_concat later with rfl | ⟨later, last, rfl⟩
    · obtain ⟨rfl, rfl⟩ : calls = before ∧ c = d := by simpa using h
      exact Or.inr hP
    · refine Or.inl ⟨before, d, later, ?_, hP⟩
      rw [List.concat_eq_append, ← List.cons_append, ← List.append_assoc] at h
      exact (List.append_inj' h rfl).1
  · rintro (⟨before, d, later, rfl, hP⟩ | hP)
    · exact ⟨before, d, later ++ [c], by simp, hP⟩
    · exact ⟨calls, c, [], rfl, hP⟩

namespace Session

/-- The files as a call finds them. -/
def during (s : Session) (c : Call) : Session := { s with sources := c.sources }

def call (s : Session) (run : Run) (c : Call) : Outcome Report := (s.during c).process c.paths run

/-- The state behind some calls, each of which may have halted. -/
def after (s : Session) (calls : List Call) : Run :=
  calls.foldl (fun run c => (s.call run c).run) {}

/-- One of the calls has reported the file.  A call that halts has reported the visits
that ended before. -/
def Reports (s : Session) (file : String) : List Call → Prop :=
  Sometime fun before c => file ∈ (s.call (s.after before) c).run.report.map (·.path)

/-- The call breaks off the first visit of the file: it halts at a file to which a chain
of inclusions leads from there. -/
def BreaksOff (s : Session) (file : String) (run : Run) (c : Call) : Prop :=
  ∃ after e, ∃ chain : List String, s.call run c = .halted after e ∧ file ∈ chain ∧
    chain.IsChain (fun f g => g ∈ (s.during c).next (s.configured c.paths) f) ∧
    chain.getLast? = some e.file ∧
    ∀ f ∈ chain, f ∉ run.visited ∧ f ∈ after.visited ∧ f ∉ after.report.map (·.path)

/-- One of the calls broke off the visit of the file. -/
def Broken (s : Session) (file : String) : List Call → Prop :=
  Sometime fun before c => s.BreaksOff file (s.after before) c

variable {s : Session} {calls : List Call} {c : Call} {file : String}

theorem after_concat : s.after (calls ++ [c]) = (s.call (s.after calls) c).run := by
  simp [after]

theorem reports_concat : s.Reports file (calls ++ [c]) ↔
    s.Reports file calls ∨ file ∈ (s.call (s.after calls) c).run.report.map (·.path) :=
  sometime_concat

theorem broken_concat : s.Broken file (calls ++ [c]) ↔
    s.Broken file calls ∨ s.BreaksOff file (s.after calls) c := sometime_concat

theorem BreaksOff.spec {run : Run} (h : s.BreaksOff file run c) : file ∉ run.visited ∧
    file ∈ (s.call run c).run.visited ∧ file ∉ (s.call run c).run.report.map (·.path) := by
  obtain ⟨after, e, chain, hcall, hfile, -, -, hchain⟩ := h
  rw [hcall]
  exact hchain file hfile

/-! In one pass, every file visited so far was either reported or broken off. -/

section OnePass

variable (hone : s.twoPass = false)
include hone

theorem call_walked {run : Run} (hcache : run.cache = []) (c : Call) :
    ∃ steps, match s.call run c with
      | .done after report =>
          (s.during c).Walked c.paths run steps none after ∧ after.report = report
      | .halted after e => (s.during c).Walked c.paths run steps (some e.file) after :=
  process_walked (s := s.during c) hone hcache c.paths

theorem cache_after (calls : List Call) : (s.after calls).cache = [] := by
  induction calls using List.reverseRecOn with
  | nil => rfl
  | append_singleton calls c ih =>
      obtain ⟨steps, stop, h⟩ := exists_walked (s := s.during c) hone ih c.paths
      rw [after_concat]
      exact h.cache

/-- A call visits what it reports, and what it breaks off. -/
theorem mem_visited_call {run : Run} (hcache : run.cache = []) (c : Call) (file : String) :
    file ∈ (s.call run c).run.visited ↔ file ∈ run.visited ∨
      file ∈ (s.call run c).run.report.map (·.path) ∨ s.BreaksOff file run c := by
  obtain ⟨steps, h⟩ := call_walked hone hcache c
  cases houtcome : s.call run c with
  | done after report =>
      rw [houtcome] at h
      have hbreaks : ¬ s.BreaksOff file run c := by
        rintro ⟨_, _, _, hhalted, -⟩
        rw [houtcome] at hhalted
        cases hhalted
      refine h.1.mem_visited_of_done.trans (or_congr_right (or_iff_left hbreaks).symm)
  | halted after e =>
      rw [houtcome] at h
      obtain ⟨chain, hlinked, hlast, hchain, hvisited⟩ := h.open_chain
      refine hvisited.trans (or_congr_right (or_congr_right ⟨fun hfile => ?_, ?_⟩))
      · exact ⟨after, e, chain, houtcome, hfile, hlinked, hlast, hchain⟩
      · -- Whatever chain it names: the file was visited just now, and has no result.
        intro hbreaks
        have hspec := hbreaks.spec
        rw [houtcome] at hspec
        rcases hvisited.mp hspec.2.1 with hfile | hfile | hfile
        · exact absurd hfile hspec.1
        · exact absurd hfile hspec.2.2
        · exact hfile

/-- What a call reports was not visited before it. -/
theorem notMem_visited_of_reported {run : Run} (hcache : run.cache = [])
    (hfile : file ∈ (s.call run c).run.report.map (·.path)) : file ∉ run.visited := by
  obtain ⟨steps, stop, h⟩ := exists_walked (s := s.during c) hone hcache c.paths
  change file ∈ ((s.during c).process c.paths run).run.report.map (·.path) at hfile
  rw [h.report] at hfile
  exact (h.traversal.fresh_of_mem_entered (h.traversal.left_subset_entered hfile)).2

theorem visited_after_iff (calls : List Call) :
    file ∈ (s.after calls).visited ↔ s.Reports file calls ∨ s.Broken file calls := by
  induction calls using List.reverseRecOn with
  | nil => simp [after, Reports, Broken, not_sometime_nil]
  | append_singleton calls c ih =>
      rw [reports_concat, broken_concat, after_concat,
        mem_visited_call hone (cache_after hone calls), ih]
      exact or_or_or_comm

theorem not_reports_of_broken (calls : List Call) (hbroken : s.Broken file calls) :
    ¬ s.Reports file calls := by
  intro hreports
  induction calls using List.reverseRecOn with
  | nil => exact not_sometime_nil hreports
  | append_singleton calls c ih =>
      -- A file that an earlier call reported or broke off is visited by now, and the last
      -- call does neither to it.
      have hvisited : s.Reports file calls ∨ s.Broken file calls → _ :=
        (visited_after_iff hone calls).mpr
      rcases reports_concat.mp hreports with hreports | hreports
      · rcases broken_concat.mp hbroken with hbroken | hbreaks
        · exact ih hbroken hreports
        · exact hbreaks.spec.1 (hvisited (Or.inl hreports))
      · rcases broken_concat.mp hbroken with hbroken | hbreaks
        · exact notMem_visited_of_reported hone (cache_after hone calls) hreports
            (hvisited (Or.inr hbroken))
        · exact hbreaks.spec.2.2 hreports

end OnePass

/-- A call that is done reports every configured file, if it makes two passes.  In one
pass, a configured file is lost, to this call and to all calls before, if and only if one
of them halted inside its visit. -/
theorem lost_iff_broken_off {run : Run} {report : Report}
    (h : s.call (s.after calls) c = .done run report) (hfile : file ∈ s.configured c.paths) :
    (s.twoPass = true → file ∈ report.map (·.path)) ∧
      (s.twoPass = false → (¬ s.Reports file (calls ++ [c]) ↔ s.Broken file calls)) := by
  constructor
  · intro htwo
    exact process_accounts (s := s.during c) htwo h hfile
  · intro hone
    have hvisited : file ∈ (s.after (calls ++ [c])).visited := by
      obtain ⟨steps, hwalked⟩ := call_walked hone (cache_after hone calls) c
      rw [h] at hwalked
      rw [after_concat, h]
      exact hwalked.1.mem_visited_of_configured hfile
    have hdone : s.Broken file (calls ++ [c]) ↔ s.Broken file calls := by
      refine broken_concat.trans (or_iff_left ?_)
      rintro ⟨_, _, _, hhalted, -⟩
      rw [h] at hhalted
      cases hhalted
    rw [← hdone]
    constructor
    · exact ((visited_after_iff hone _).mp hvisited).resolve_left
    · exact not_reports_of_broken hone _

/-- The file and the one it includes, which is refused; then the file alone. -/
def interruptedCall : Call := ⟨refusingUnit.sources, ["user.m", "foo.h"]⟩

def repeatedCall : Call := ⟨refusingUnit.sources, ["user.m"]⟩

def onePassUnit : Session := { refusingUnit with twoPass := false }

theorem interrupted_file_never_reported :
    "user.m" ∈ onePassUnit.configured repeatedCall.paths ∧
      (∃ run, onePassUnit.call (onePassUnit.after [interruptedCall]) repeatedCall = .done run []) ∧
      ¬ onePassUnit.Reports "user.m" [interruptedCall, repeatedCall] := by
  refine ⟨by decide, ⟨_, rfl⟩, ?_⟩
  have hsplit : [interruptedCall, repeatedCall] = ([] ++ [interruptedCall]) ++ [repeatedCall] := rfl
  rw [hsplit, reports_concat, reports_concat]
  rintro ((hreports | hreports) | hreports)
  · exact not_sometime_nil hreports
  · exact absurd hreports (by decide)
  · exact absurd hreports (by decide)

theorem lost_iff_broken_off_refused :
    (∃ run report, onePassUnit.call (onePassUnit.after [interruptedCall]) repeatedCall =
        .done run report ∧
      (¬ onePassUnit.Reports "user.m" [interruptedCall, repeatedCall] ↔
        onePassUnit.Broken "user.m" [interruptedCall])) ∧
    ∃ run report, refusingUnit.call (refusingUnit.after [interruptedCall]) repeatedCall =
      .done run report ∧ "user.m" ∈ report.map (·.path) := by
  obtain ⟨one, report, hone⟩ : ∃ run report,
      onePassUnit.call (onePassUnit.after [interruptedCall]) repeatedCall = .done run report :=
    ⟨_, _, rfl⟩
  obtain ⟨two, report', htwo⟩ : ∃ run report,
      refusingUnit.call (refusingUnit.after [interruptedCall]) repeatedCall = .done run report :=
    ⟨_, _, rfl⟩
  refine ⟨⟨one, report, hone, ?_⟩, two, report', htwo, ?_⟩
  · exact (lost_iff_broken_off hone (by decide)).2 rfl
  · exact (lost_iff_broken_off htwo (by decide)).1 rfl

end Session

end SymbolGraph
