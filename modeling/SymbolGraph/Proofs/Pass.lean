import SymbolGraph.Proofs.Restore

/-!
# `Proofs.Pass` — a pass does what its traversal says, and no more

For every state with a sound cache, every list of paths and either pass:

    runPass s pass paths run   ends (or halts) in a state `after` with
      Traversal s run.files run.visited tasks steps stop
      Effect s pass steps run after

where `stop` names the unreadable file, if the pass halts.  `Effect` gives each
part of the state behind the steps in closed form; of a result it says what is
counted, which is what the acts of its own file write.  Nothing is assumed of
the inclusions.  The cache is sound (`CacheValid`) if it holds what a parse would
give again; a pass keeps it so.
-/

namespace SymbolGraph

open Step

/-- The cache holds, at most once for each file, what the file is parsed into. -/
structure Session.CacheValid (s : Session) (cache : Dict Parsed) : Prop where
  distinct : Dict.Distinct cache
  sound : ∀ file p, cache.get? file = some p → s.parsed? file = some p

theorem Session.cacheValid_nil (s : Session) : s.CacheValid [] :=
  ⟨List.nodup_nil, fun _ _ h => by cases h⟩

/-- What a pass leaves in the cache for a file that it visits. -/
def Session.kept (s : Session) (pass : Pass) (file : String) : Option Parsed :=
  match pass with
  | .collecting => s.parsed? file
  | .emitting => none

/-- The visit of the file ends among the steps, and the counts are those of what the acts
of the file write, from the tables before the steps on. -/
def FileResult.CountedBy (r : FileResult) (t : Symbols) (steps : List Step) : Prop :=
  r.path ∈ left steps ∧ r.counts = (Act.emitFor r.path t (acts steps)).foldl Counts.add {}

/-- No file is visited in both parts, and in neither part is anything done for a file
whose visit ends in the other. -/
structure Step.Apart (steps more : List Step) : Prop where
  visits : ∀ file ∈ entered more, file ∉ entered steps
  before : ∀ a ∈ acts steps, a.file ∉ left more
  after : ∀ a ∈ acts more, a.file ∉ left steps

namespace FileResult

variable {r : FileResult} {t : Symbols} {steps more : List Step}

theorem CountedBy.append_right (h : r.CountedBy t steps) (hapart : Apart steps more) :
    r.CountedBy t (steps ++ more) := by
  have hnone : Act.emitFor r.path (Act.declareAll (acts steps) t) (acts more) = [] :=
    Act.emitFor_of_ne fun a ha heq => hapart.after a ha (heq ▸ h.1)
  refine ⟨by simp [h.1], ?_⟩
  rw [acts_append, Act.emitFor_append, hnone, List.append_nil]
  exact h.2

theorem CountedBy.append_left (h : r.CountedBy (Act.declareAll (acts steps) t) more)
    (hapart : Apart steps more) : r.CountedBy t (steps ++ more) := by
  have hnone : Act.emitFor r.path t (acts steps) = [] :=
    Act.emitFor_of_ne fun a ha heq => hapart.before a ha (heq ▸ h.1)
  refine ⟨by simp [h.1], ?_⟩
  rw [acts_append, Act.emitFor_append, hnone, List.nil_append]
  exact h.2

end FileResult

/-- The state behind some steps of a pass. -/
structure Effect (s : Session) (pass : Pass) (steps : List Step) (before after : Run) : Prop where
  files : after.files = before.files
  visited : after.visited = before.visited ++ entered steps
  symbols : after.symbols = Act.declareAll (acts steps) before.symbols
  store : after.store =
    before.store.recordAll (pass.only (Act.emitAll before.symbols (acts steps)))
  report : after.report.map (·.path) = before.report.map (·.path) ++ pass.only (left steps)
  results : ∀ r ∈ after.report, r ∈ before.report ∨ r.error = s.failure? r.path
  counts : ∀ r ∈ after.report, r ∈ before.report ∨ r.CountedBy before.symbols steps
  parses : after.parses.toList = before.parses.toList ++ (entered steps).filter fun file =>
    (before.cache.get? file).isNone && (s.readFile file).isOk
  cache : ∀ file, after.cache.get? file =
    if file ∈ entered steps then s.kept pass file else before.cache.get? file
  valid : s.CacheValid after.cache

namespace Effect

variable {s : Session} {pass : Pass} {steps more : List Step} {a b c : Run}

theorem refl {run : Run} (h : s.CacheValid run.cache) : Effect s pass [] run run where
  files := rfl
  visited := by simp
  symbols := rfl
  store := by simp [Act.emitAll, Store.recordAll]
  report := by simp
  results := fun _ hr => Or.inl hr
  counts := fun _ hr => Or.inl hr
  parses := by simp
  cache := by simp
  valid := h

theorem trans (h : Effect s pass steps a b) (h' : Effect s pass more b c)
    (hapart : Apart steps more) :
    Effect s pass (steps ++ more) a c where
  files := h'.files.trans h.files
  visited := by rw [h'.visited, h.visited, entered_append, List.append_assoc]
  symbols := by rw [h'.symbols, h.symbols, acts_append, Act.declareAll_append]
  store := by
    rw [h'.store, h.store, h.symbols, acts_append, Act.emitAll_append, Pass.only_append,
      Store.recordAll_append]
  report := by rw [h'.report, h.report, left_append, Pass.only_append, List.append_assoc]
  results := fun r hr => (h'.results r hr).elim (h.results r) Or.inr
  counts := by
    intro r hr
    rcases h'.counts r hr with hr | hcounted
    · exact (h.counts r hr).imp_right fun hcounted => hcounted.append_right hapart
    · rw [h.symbols] at hcounted
      exact Or.inr (hcounted.append_left hapart)
  parses := by
    rw [h'.parses, h.parses, entered_append, List.filter_append, List.append_assoc]
    congr 2
    refine List.filter_congr fun file hfile => ?_
    rw [h.cache, if_neg (hapart.visits file hfile)]
  cache := by
    intro file
    rw [h'.cache, h.cache, entered_append]
    by_cases hmore : file ∈ entered more
    · simp [hmore]
    · simp [hmore]
  valid := h'.valid

end Effect

/-- How a step of a run ends, told by a traversal.  A step that halts says what the
system said of the file. -/
def Outcome.Follows {α : Type} (s : Session) (pass : Pass) (tasks : List Task) (run : Run) :
    Outcome α → Prop
  | .done after _ => ∃ steps, Traversal s run.files run.visited tasks steps none ∧
      Effect s pass steps run after
  | .halted after e => ∃ steps, Traversal s run.files run.visited tasks steps (some e.file) ∧
      Effect s pass steps run after ∧ s.content e.file = .unreadable e.reason

/-- Done or halted, the steps say what the state is. -/
theorem Outcome.Follows.effect {α : Type} {s : Session} {pass : Pass} {tasks : List Task}
    {run : Run} {o : Outcome α} (h : o.Follows s pass tasks run) : ∃ steps stop,
      Traversal s run.files run.visited tasks steps stop ∧ Effect s pass steps run o.run := by
  cases o with
  | done after value =>
      obtain ⟨steps, htraversal, heffect⟩ := h
      exact ⟨steps, none, htraversal, heffect⟩
  | halted after e =>
      obtain ⟨steps, htraversal, heffect, -⟩ := h
      exact ⟨steps, some e.file, htraversal, heffect⟩

namespace Session

variable {s : Session} {pass : Pass}

theorem effect_act (a : Act) {run : Run} (hvalid : s.CacheValid run.cache) :
    Effect s pass [.act a] run (run.act pass a) := by
  obtain ⟨log, h⟩ := run.act_frame pass a
  rw [h]
  exact {
    files := rfl
    visited := by simp
    symbols := rfl
    store := by simp [Act.emitAll]
    report := by simp
    results := fun _ hr => Or.inl hr
    counts := fun _ hr => Or.inl hr
    parses := by simp
    cache := by simp
    valid := hvalid }

/-- Acts to be done at the start belong to files whose visits have begun before. -/
theorem apart_of_traversals {files visited : List String} {as bs : List Task}
    {steps more : List Step} {stop : Option String}
    (ha : Traversal s files visited as steps none)
    (hb : Traversal s files (visited ++ entered steps) bs more stop)
    (home : ∀ a, .act a ∈ as ++ bs → a.file ∈ visited) : Apart steps more := by
  have hvisits : ∀ file ∈ entered more, file ∉ visited ∧ file ∉ entered steps := fun _ hfile => by
    simpa using (hb.fresh_of_mem_entered hfile).2
  refine ⟨fun file hfile => (hvisits file hfile).2, fun a hact hleft => ?_, fun a hact hleft => ?_⟩
  · obtain ⟨hnot, hnew⟩ := hvisits _ (hb.left_subset_entered hleft)
    rcases ha.file_of_mem_acts hact with hown | hin
    · exact hnot (home a (List.mem_append_left _ hown))
    · exact hnew hin
  · have hin := ha.left_subset_entered hleft
    rcases hb.file_of_mem_acts hact with hown | hmore
    · exact (ha.fresh_of_mem_entered hin).2 (home a (List.mem_append_right _ hown))
    · exact (hvisits _ hmore).2 hin

/-- One part of a pass after another. -/
theorem follows_append {α : Type} {as bs : List Task} {steps : List Step} {before mid : Run}
    {o : Outcome α} (home : ∀ a, .act a ∈ as ++ bs → a.file ∈ before.visited)
    (ha : Traversal s before.files before.visited as steps none)
    (heffect : Effect s pass steps before mid) (ho : o.Follows s pass bs mid) :
    o.Follows s pass (as ++ bs) before := by
  unfold Outcome.Follows at ho ⊢
  rw [heffect.files, heffect.visited] at ho
  cases o with
  | done after value =>
      obtain ⟨more, hb, heffect'⟩ := ho
      exact ⟨steps ++ more, ha.append hb,
        heffect.trans heffect' (apart_of_traversals ha hb home)⟩
  | halted after e =>
      obtain ⟨more, hb, heffect', hreason⟩ := ho
      exact ⟨steps ++ more, ha.append hb,
        heffect.trans heffect' (apart_of_traversals ha hb home), hreason⟩

section Walk

variable {enter : String → Run → Outcome (Option FileResult)} {file : String} {depth : Nat}
  (henter : ∀ path run, s.CacheValid run.cache → run.unvisited ≤ depth →
    (enter path run).Follows s pass [.follow (some file) path] run)
include henter

/-- A walk follows the tasks of its file, if `enter` does what an inclusion says. -/
theorem walk_follows : ∀ (as : List Action) (w : Walker) (counts : Counts) (run : Run),
    s.CacheValid run.cache → run.unvisited ≤ depth → file ∈ run.visited →
      (run.walk enter pass file as w counts).Follows s pass (Task.ofActions file as w) run := by
  intro as
  induction as with
  | nil =>
      intro w counts run hvalid _ _
      simp only [Run.walk, Task.ofActions]
      exact ⟨[], .done, .refl hvalid⟩
  | cons a rest ih =>
      intro w counts run hvalid hdepth hfile
      have home : ∀ b, .act b ∈ Task.ofActions file (a :: rest) w → b.file ∈ run.visited :=
        fun b hb => Task.file_of_mem_ofActions hb ▸ hfile
      by_cases ha : ∃ path, a = .inclusion path
      · obtain ⟨path, rfl⟩ := ha
        have hpath := henter path run hvalid hdepth
        rw [Task.ofActions, ← List.singleton_append] at home ⊢
        rw [Run.walk]
        cases houtcome : enter path run with
        | done mid value =>
            rw [houtcome] at hpath
            obtain ⟨steps, htraversal, heffect⟩ := hpath
            have hleft := Run.unvisited_le ⟨heffect.files, _, heffect.visited⟩
            exact follows_append home htraversal heffect
              (ih w counts mid heffect.valid (Nat.le_trans hleft hdepth)
                (by simp [heffect.visited, hfile]))
        | halted mid e =>
            rw [houtcome] at hpath
            obtain ⟨steps, htraversal, heffect, hreason⟩ := hpath
            exact ⟨steps, htraversal.append_halted, heffect, hreason⟩
      · have ha : ∀ path, a ≠ .inclusion path := fun path hpath => ha ⟨path, hpath⟩
        have heffect : Effect s pass [.act ⟨file, w, a⟩] run _ := effect_act _ hvalid
        have hleft := Run.unvisited_le ⟨heffect.files, _, heffect.visited⟩
        rw [Task.ofActions_cons file ha, ← List.singleton_append] at home ⊢
        rw [Run.walk_cons ha]
        exact follows_append home (.act .done) heffect
          (ih _ _ _ heffect.valid (Nat.le_trans hleft hdepth) (by simp [heffect.visited, hfile]))

/-- A walk counts what its own acts write.  What is done on the way, for files that are
included, is done for other files. -/
theorem walk_counts : ∀ (as : List Action) (w : Walker) (counts : Counts) (run : Run)
    {after : Run} {total : Counts} {steps : List Step}, s.CacheValid run.cache →
    run.unvisited ≤ depth → file ∈ run.visited →
    run.walk enter pass file as w counts = .done after total →
    Traversal s run.files run.visited (Task.ofActions file as w) steps none →
      total = (Act.emitFor file run.symbols (Step.acts steps)).foldl Counts.add counts := by
  intro as
  induction as with
  | nil =>
      intro w counts run after total steps _ _ _ hdone htraversal
      cases hdone
      cases htraversal
      rfl
  | cons a rest ih =>
      intro w counts run after total steps hvalid hdepth hfile hdone htraversal
      by_cases ha : ∃ path, a = .inclusion path
      · obtain ⟨path, rfl⟩ := ha
        have hpath := henter path run hvalid hdepth
        rw [Run.walk] at hdone
        cases houtcome : enter path run with
        | halted mid e =>
            rw [houtcome] at hdone
            cases hdone
        | done mid value =>
            rw [houtcome] at hdone hpath
            obtain ⟨inner, hinner, heffect⟩ := hpath
            have hleft := Nat.le_trans
              (Run.unvisited_le ⟨heffect.files, _, heffect.visited⟩) hdepth
            have hmid : file ∈ mid.visited := by simp [heffect.visited, hfile]
            have hrest := walk_follows henter rest w counts mid heffect.valid hleft hmid
            dsimp only at hdone
            rw [hdone] at hrest
            obtain ⟨more, hmore, -⟩ := hrest
            have hothers : ∀ b ∈ Step.acts inner, b.file ≠ file := by
              rintro b hb rfl
              rcases hinner.file_of_mem_acts hb with hown | hin
              · cases List.mem_singleton.mp hown
              · exact (hinner.fresh_of_mem_entered hin).2 hfile
            have htotal := ih w counts mid heffect.valid hleft hmid hdone hmore
            rw [heffect.files, heffect.visited] at hmore
            obtain ⟨rfl, -⟩ := Traversal.unique htraversal (hinner.append hmore)
            rw [acts_append, Act.emitFor_append, Act.emitFor_of_ne hothers, List.nil_append,
              ← heffect.symbols, htotal]
      · have ha : ∀ path, a ≠ .inclusion path := fun path hpath => ha ⟨path, hpath⟩
        have heffect : Effect s pass [.act ⟨file, w, a⟩] run _ := effect_act _ hvalid
        have hleft := Nat.le_trans
          (Run.unvisited_le ⟨heffect.files, _, heffect.visited⟩) hdepth
        rw [Run.walk_cons ha] at hdone
        rw [Task.ofActions_cons file ha] at htraversal
        cases htraversal with
        | act hrest =>
            have htotal := ih _ _ _ heffect.valid hleft (by simp [heffect.visited, hfile]) hdone
              (by simpa [heffect.files, heffect.visited] using hrest)
            rw [htotal, acts_act, Act.emitFor, if_pos rfl, List.foldl_append, heffect.symbols]
            rfl

end Walk

/-! ## Visiting a file -/

/-- Loading a file gives what the file holds; the cache has it no more. -/
theorem fetch_eq (file : String) {run : Run} (hvalid : s.CacheValid run.cache) :
    ∃ log parses cache, s.fetch file run = ({ run with log, parses, cache }, s.content file) ∧
      parses.toList = run.parses.toList ++ [file].filter (fun file =>
        (run.cache.get? file).isNone && (s.readFile file).isOk) ∧
      (∀ f, cache.get? f = if f = file then none else run.cache.get? f) ∧
      s.CacheValid cache := by
  cases hcached : run.cache.get? file with
  | some p =>
      have hcontent : s.content file = .parsed p := by
        have hparsed := hvalid.sound file p hcached
        unfold parsed? at hparsed
        split at hparsed
        · next heq => rw [heq, Option.some.inj hparsed]
        · cases hparsed
      have herase : ∀ f, (run.cache.erase file).get? f =
          if f = file then none else run.cache.get? f := by
        intro f
        rw [Dict.get?_erase hvalid.distinct]
        simp only [eq_comm]
      refine ⟨run.log, run.parses, run.cache.erase file, ?_, ?_, herase, ?_⟩
      · simp only [fetch, hcached, hcontent]
      · simp [hcached]
      · refine ⟨Dict.distinct_erase hvalid.distinct file, fun f q hq => hvalid.sound f q ?_⟩
        rw [herase] at hq
        split at hq
        · cases hq
        · exact hq
  | none =>
      have hsame : ∀ f, run.cache.get? f = if f = file then none else run.cache.get? f := by
        intro f
        split
        · next heq => rw [heq, hcached]
        · rfl
      cases hread : s.readFile file with
      | error other =>
          refine ⟨run.log, run.parses, run.cache, ?_, ?_, hsame, hvalid⟩
          · simp only [fetch, hcached, hread, content]
          · simp [hread, Except.isOk, Except.toBool]
      | ok bytes =>
          refine ⟨(run.logAll (s.sources.parse bytes file).1).log, run.parses.push file, run.cache,
            ?_, ?_, hsame, hvalid⟩
          · simp only [fetch, hcached, hread, content]
            cases (s.sources.parse bytes file).2 <;> rfl
          · simp [hread, hcached, Except.isOk, Except.toBool]

theorem load_eq (pass : Pass) (file : String) {run : Run} (hvalid : s.CacheValid run.cache) :
    ∃ log parses cache, s.load pass file run = ({ run with log, parses, cache }, s.content file) ∧
      parses.toList = run.parses.toList ++ [file].filter (fun file =>
        (run.cache.get? file).isNone && (s.readFile file).isOk) ∧
      (∀ f, cache.get? f = if f = file then s.kept pass file else run.cache.get? f) ∧
      s.CacheValid cache := by
  obtain ⟨log, parses, cache, hfetch, hparses, hcache, hvalid'⟩ := fetch_eq file hvalid
  by_cases hkeep : ∃ p, pass = .collecting ∧ s.content file = .parsed p
  · obtain ⟨p, rfl, hcontent⟩ := hkeep
    have hparsed : s.parsed? file = some p := by simp only [parsed?, hcontent]
    have hset : ∀ f, (cache.set file p).get? f =
        if f = file then some p else run.cache.get? f := by
      intro f
      rw [Dict.get?_set, hcache]
      by_cases hf : f = file
      · simp [hf]
      · simp [hf, Ne.symm hf]
    refine ⟨log, parses, cache.set file p, ?_, hparses, ?_, ?_⟩
    · simp only [load, hfetch, hcontent]
    · simpa only [kept, hparsed] using hset
    · refine ⟨Dict.distinct_set hvalid'.distinct file p, fun f q hq => ?_⟩
      rw [hset] at hq
      split at hq
      · next heq => rw [heq, hparsed, hq]
      · exact hvalid.sound f q hq
  · have hload : s.load pass file run = s.fetch file run := by
      cases pass with
      | emitting => rfl
      | collecting =>
          unfold load
          rw [hfetch]
          cases hcontent : s.content file with
          | parsed p => exact absurd ⟨p, rfl, hcontent⟩ hkeep
          | failed | unreadable => rfl
    have hkept : s.kept pass file = none := by
      cases pass with
      | emitting => rfl
      | collecting =>
          simp only [kept, parsed?]
          split
          · next p hcontent => exact absurd ⟨p, rfl, hcontent⟩ hkeep
          · rfl
    exact ⟨log, parses, cache, hload.trans hfetch, hparses, by rwa [hkept], hvalid'⟩

/-- The beginning of a visit. -/
theorem effect_enter {file : String} {run : Run} {log : Array Event} {parses : Array String}
    {cache : Dict Parsed}
    (hparses : parses.toList = run.parses.toList ++ [file].filter (fun file =>
      (run.cache.get? file).isNone && (s.readFile file).isOk))
    (hcache : ∀ f, cache.get? f = if f = file then s.kept pass file else run.cache.get? f)
    (hvalid : s.CacheValid cache) :
    Effect s pass [.enter file] run
      { run with log, parses, cache, visited := run.visited ++ [file] } where
  files := rfl
  visited := rfl
  symbols := rfl
  store := by simp [Act.emitAll, Store.recordAll]
  report := by simp
  results := fun _ hr => Or.inl hr
  counts := fun _ hr => Or.inl hr
  parses := hparses
  cache := by
    intro f
    rw [hcache]
    by_cases hf : f = file
    · simp [hf]
    · simp [hf]
  valid := hvalid

/-- The end of a visit. -/
theorem effect_leave {steps : List Step} {run mid : Run} (h : Effect s pass steps run mid)
    (result : FileResult) (herror : result.error = s.failure? result.path)
    (hcounts : result.counts =
      (Act.emitFor result.path run.symbols (Step.acts steps)).foldl Counts.add {}) :
    ∃ after, conclude pass mid result = .done after (some result) ∧
      Effect s pass (steps ++ [.leave result.path]) run after := by
  have hleave : ∀ {r : FileResult}, r.CountedBy run.symbols steps →
      r.CountedBy run.symbols (steps ++ [.leave result.path]) := fun hr =>
    ⟨by simp [hr.1], by simpa using hr.2⟩
  cases pass with
  | collecting =>
      exact ⟨_, rfl, {
        files := h.files
        visited := by simpa using h.visited
        symbols := by simpa using h.symbols
        store := by simpa using h.store
        report := by simpa [Pass.only] using h.report
        results := h.results
        counts := fun r hr => (h.counts r hr).imp_right hleave
        parses := by simpa using h.parses
        cache := by simpa using h.cache
        valid := h.valid }⟩
  | emitting =>
      exact ⟨_, rfl, {
        files := h.files
        visited := by simpa using h.visited
        symbols := by simpa using h.symbols
        store := by simpa using h.store
        report := by simp [Pass.only, h.report]
        results := fun r hr => by
          rcases List.mem_append.mp hr with hr | hr
          · exact h.results r hr
          · exact Or.inr (List.mem_singleton.mp hr ▸ herror)
        counts := fun r hr => by
          rcases List.mem_append.mp hr with hr | hr
          · exact (h.counts r hr).imp_right hleave
          · rw [List.mem_singleton.mp hr]
            exact Or.inr ⟨by simp, by simpa using hcounts⟩
        parses := by simpa using h.parses
        cache := by simpa using h.cache
        valid := h.valid }⟩

section Visit

variable {origin : Option String} {path file : String} {run : Run}

/-- The beginning of a visit, and what is done during it. -/
theorem effect_inner {mid after : Run} (henter : Effect s pass [.enter file] run mid)
    {inner : List Step} {stop : Option String}
    (hinner : Traversal s run.files (run.visited ++ [file]) (s.tasks file) inner stop)
    (heffect : Effect s pass inner mid after) : Effect s pass (.enter file :: inner) run after := by
  refine henter.trans heffect ⟨fun f hf => ?_, fun _ ha => absurd ha List.not_mem_nil,
    fun _ _ => List.not_mem_nil⟩
  exact fun hin => (hinner.fresh_of_mem_entered hf).2 (List.mem_append_right _ hin)

/-- A visit whose steps all came to their end. -/
theorem follows_conclude (hpath : s.normalizeFrom origin path = file)
    (hfresh : Fresh run.files run.visited file) (hread : ¬ s.Unreadable file)
    {mid after : Run} (henter : Effect s pass [.enter file] run mid) {inner : List Step}
    (hinner : Traversal s mid.files mid.visited (s.tasks file) inner none)
    (heffect : Effect s pass inner mid after) {counts : Counts}
    (hcounts : counts = (Act.emitFor file mid.symbols (Step.acts inner)).foldl Counts.add {})
    (issues : List Issue) {error : Option String} (herror : error = s.failure? file) :
    (conclude pass after ⟨file, counts, issues, error⟩).Follows s pass
      [.follow origin path] run := by
  rw [henter.files, henter.visited] at hinner
  rw [henter.symbols] at hcounts
  obtain ⟨final, hfinal, hvisit⟩ :=
    effect_leave (effect_inner henter hinner heffect) ⟨file, counts, issues, error⟩ herror hcounts
  have htraversal : Traversal s run.files run.visited [.follow origin path]
      (.enter file :: (inner ++ [.leave file])) none := .visit hpath hfresh hread hinner .done
  rw [hfinal]
  exact ⟨_, htraversal, hvisit⟩

theorem follows_finish (hpath : s.normalizeFrom origin path = file)
    (hfresh : Fresh run.files run.visited file) (hread : ¬ s.Unreadable file) {mid : Run}
    (henter : Effect s pass [.enter file] run mid) {o : Outcome Counts}
    (ho : o.Follows s pass (s.tasks file) mid)
    (hcounts : ∀ {after : Run} {total : Counts} {steps : List Step}, o = .done after total →
      Traversal s mid.files mid.visited (s.tasks file) steps none →
      total = (Act.emitFor file mid.symbols (Step.acts steps)).foldl Counts.add {})
    (herror : s.failure? file = none) (issues : List Issue) :
    (finish pass file issues o).Follows s pass [.follow origin path] run := by
  cases o with
  | done after counts =>
      obtain ⟨inner, hinner, heffect⟩ := ho
      exact follows_conclude hpath hfresh hread henter hinner heffect (hcounts rfl hinner) issues
        herror.symm
  | halted after e =>
      obtain ⟨inner, hinner, heffect, hreason⟩ := ho
      rw [henter.files, henter.visited] at hinner
      exact ⟨.enter file :: inner, .interrupted hpath hfresh hread hinner,
        effect_inner henter hinner heffect, hreason⟩

theorem visit_follows {enter : String → Run → Outcome (Option FileResult)} {depth : Nat}
    (henter : ∀ path run, s.CacheValid run.cache → run.unvisited ≤ depth →
      (enter path run).Follows s pass [.follow (some file) path] run)
    (hpath : s.normalizeFrom origin path = file) (hfresh : Fresh run.files run.visited file)
    (hvalid : s.CacheValid run.cache) (hdepth : run.unvisited ≤ depth + 1) :
    (s.visit pass enter file (entering origin file run)).Follows s pass
      [.follow origin path] run := by
  have hvalid₁ : s.CacheValid (entering origin file run).cache := hvalid
  obtain ⟨log₁, parses, cache, hload, hparses, hcache, hvalid'⟩ := load_eq pass file hvalid₁
  have hbegin : ∀ log, Effect s pass [.enter file] run
      { run with log, parses, cache, visited := run.visited ++ [file] } :=
    fun _ => effect_enter hparses hcache hvalid'
  cases hcontent : s.content file with
  | unreadable reason =>
      rw [hcontent] at hload
      rw [visit_of_unreadable hload]
      exact ⟨_, .unreadable hpath hfresh ⟨reason, hcontent⟩, hbegin log₁, hcontent⟩
  | failed reason =>
      have hread : ¬ s.Unreadable file := fun ⟨_, h⟩ => by rw [hcontent] at h; cases h
      have htasks : s.tasks file = [] := by simp only [tasks, tree?, parsed?, hcontent]; rfl
      have herror : s.failure? file = some reason := by simp only [failure?, hcontent]
      rw [hcontent] at hload
      obtain ⟨log, hnoted⟩ := noted_eq pass [.walkFailed file reason]
        { entering origin file run with log := log₁, parses, cache }
      rw [visit_of_failed hload, hnoted]
      exact follows_conclude hpath hfresh hread (hbegin log) (htasks ▸ .done) (.refl hvalid') rfl _
        herror.symm
  | parsed p =>
      have hread : ¬ s.Unreadable file := fun ⟨_, h⟩ => by rw [hcontent] at h; cases h
      have htasks : s.tasks file = Task.ofActions file (p.tree.actions {}) {} := by
        simp only [tasks, tree?, parsed?, hcontent]; rfl
      have herror : s.failure? file = none := by simp only [failure?, hcontent]
      rw [hcontent] at hload
      obtain ⟨log, hnoted⟩ := noted_eq pass (p.issues.map (.issue file))
        { entering origin file run with log := log₁, parses, cache }
      rw [visit_of_parsed hload, hnoted]
      have hleft := Nat.le_of_lt_succ (Nat.lt_of_lt_of_le
        (Run.unvisited_lt (hbegin log).files (hbegin log).visited hfresh) hdepth)
      have hfile : file ∈ run.visited ++ [file] := List.mem_append_right _ List.mem_cons_self
      have hwalk := walk_follows henter (p.tree.actions {}) {} {} _ (hbegin log).valid hleft hfile
      rw [← htasks] at hwalk
      refine follows_finish hpath hfresh hread (hbegin log) hwalk (fun hdone htraversal => ?_)
        herror p.issues
      exact walk_counts henter _ _ _ _ (hbegin log).valid hleft hfile hdone
        (htasks ▸ htraversal)

end Visit

/-! ## A whole pass -/

/-- No more files than `depth` are left: nothing is cut off. -/
theorem processWithin_follows :
    ∀ (depth : Nat) (origin : Option String) (path : String) (run : Run),
      s.CacheValid run.cache → run.unvisited ≤ depth →
      (s.processWithin pass depth origin path run).Follows s pass [.follow origin path] run := by
  intro depth
  induction depth with
  | zero =>
      intro origin path run hvalid hdepth
      have hstale : ¬ Fresh run.files run.visited (s.normalizeFrom origin path) := fun hfresh =>
        absurd (Run.unvisited_pos hfresh) (by omega)
      rw [processWithin_stale hstale]
      exact ⟨[], .pass hstale .done, .refl hvalid⟩
  | succ depth ih =>
      intro origin path run hvalid hdepth
      by_cases hfresh : Fresh run.files run.visited (s.normalizeFrom origin path)
      · rw [processWithin_fresh hfresh]
        exact visit_follows (ih (some _)) rfl hfresh hvalid hdepth
      · rw [processWithin_stale hfresh]
        exact ⟨[], .pass hfresh .done, .refl hvalid⟩

theorem processFile_follows (origin : Option String) (path : String) {run : Run}
    (hvalid : s.CacheValid run.cache) :
    (s.processFile pass origin path run).Follows s pass [.follow origin path] run :=
  processWithin_follows _ origin path run hvalid (Nat.le_refl _)

theorem processFile_effect (origin : Option String) (path : String) {run : Run}
    (hvalid : s.CacheValid run.cache) : ∃ steps stop,
      Traversal s run.files run.visited [.follow origin path] steps stop ∧
      Effect s pass steps run (s.processFile pass origin path run).run :=
  (processFile_follows origin path hvalid).effect

theorem runPass_follows : ∀ (paths : List String) {run : Run}, s.CacheValid run.cache →
    (s.runPass pass paths run).Follows s pass (paths.map (.follow none)) run := by
  intro paths
  induction paths with
  | nil =>
      intro run hvalid
      exact ⟨[], .done, .refl hvalid⟩
  | cons path rest ih =>
      intro run hvalid
      have hpath : (s.processFile pass none path run).Follows s pass [.follow none path] run :=
        processFile_follows none path hvalid
      rw [runPass_cons]
      cases houtcome : s.processFile pass none path run with
      | done mid value =>
          rw [houtcome] at hpath
          obtain ⟨steps, htraversal, heffect⟩ := hpath
          exact follows_append (by simp) htraversal heffect (ih heffect.valid)
      | halted mid e =>
          rw [houtcome] at hpath
          obtain ⟨steps, htraversal, heffect, hreason⟩ := hpath
          exact ⟨steps, htraversal.append_halted, heffect, hreason⟩

end Session

end SymbolGraph
