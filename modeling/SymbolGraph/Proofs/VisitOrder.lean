import SymbolGraph.Proofs.Process

/-!
# `Proofs.VisitOrder` — a run is a depth-first search through the inclusions

`DepthFirst` is the search of the textbook, through any graph: it enters a node
that it has not seen, searches on from the nodes next to it, and leaves it.  The
files of a unit are such a graph, where a file leads to the CONFIGURED files that
it includes; nothing is assumed of it, so it may have circles, and a file may
include itself, or one file many times.  A run begins its visits in the order in
which the search enters, and ends them in the order in which it leaves.
-/

namespace SymbolGraph

open Step

/-- `DepthFirst next seen agenda pre post`: with some nodes seen before, the search
from the nodes of the agenda enters new ones in the order `pre` and leaves them in
the order `post`. -/
inductive DepthFirst {α : Type} (next : α → List α) :
    List α → List α → List α → List α → Prop
  | done {seen : List α} : DepthFirst next seen [] [] []
  | skip {seen agenda pre post : List α} {x : α} :
      x ∈ seen → DepthFirst next seen agenda pre post →
      DepthFirst next seen (x :: agenda) pre post
  | enter {seen agenda inner innerPost pre post : List α} {x : α} :
      x ∉ seen → DepthFirst next (seen ++ [x]) (next x) inner innerPost →
      DepthFirst next (seen ++ x :: inner) agenda pre post →
      DepthFirst next seen (x :: agenda) (x :: (inner ++ pre)) (innerPost ++ x :: post)

/-- The graph decides both orders. -/
theorem DepthFirst.unique {α : Type} {next : α → List α} {seen agenda pre post pre' post' : List α}
    (h : DepthFirst next seen agenda pre post) (h' : DepthFirst next seen agenda pre' post') :
    pre = pre' ∧ post = post' := by
  induction h generalizing pre' post' with
  | done => cases h'; exact ⟨rfl, rfl⟩
  | skip hseen _ ih =>
      cases h' with
      | skip _ h' => exact ih h'
      | enter hnew => exact absurd hseen hnew
  | enter hnew _ _ ihinner ihrest =>
      cases h' with
      | skip hseen => exact absurd hseen hnew
      | enter _ hinner hrest =>
          obtain ⟨rfl, rfl⟩ := ihinner hinner
          obtain ⟨rfl, rfl⟩ := ihrest hrest
          exact ⟨rfl, rfl⟩

namespace Session

/-- The configured files that a file includes, in document order. -/
def next (s : Session) (files : List String) (file : String) : List String :=
  (s.includes file).filter (· ∈ files)

/-- The file that a task leads to. -/
def target? (s : Session) : Task → Option String
  | .follow origin path => some (s.normalizeFrom origin path)
  | .act _ => none

/-- The configured files that the tasks lead to. -/
def agenda (s : Session) (files : List String) (tasks : List Task) : List String :=
  (tasks.filterMap s.target?).filter (· ∈ files)

variable {s : Session} {files : List String}

theorem agenda_follow (origin : Option String) (path : String) (rest : List Task) :
    s.agenda files (.follow origin path :: rest) =
      if s.normalizeFrom origin path ∈ files
      then s.normalizeFrom origin path :: s.agenda files rest else s.agenda files rest := by
  by_cases h : s.normalizeFrom origin path ∈ files
  · rw [if_pos h]
    exact List.filter_cons_of_pos (by simpa using h)
  · rw [if_neg h]
    exact List.filter_cons_of_neg (by simpa using h)

theorem filterMap_target?_ofActions (file : String) : ∀ (as : List Action) (w : Walker),
    (Task.ofActions file as w).filterMap s.target? = as.filterMap fun
      | .inclusion path => some (s.normalizeFrom (some file) path)
      | _ => none
  | [], _ => rfl
  | a :: rest, w => by
      cases a with
      | inclusion path => exact congrArg _ (filterMap_target?_ofActions file rest w)
      | _ => exact filterMap_target?_ofActions file rest _

theorem agenda_tasks (file : String) : s.agenda files (s.tasks file) = s.next files file := by
  unfold agenda next tasks includes
  cases s.tree? file with
  | none => rfl
  | some tree => exact congrArg _ (filterMap_target?_ofActions file _ _)

theorem agenda_roots (paths : List String) :
    s.agenda (s.configured paths) (s.roots paths) = s.configured paths := by
  have htargets : (s.roots paths).filterMap s.target? = s.configured paths := by
    rw [roots, List.filterMap_map]
    refine (List.filterMap_congr fun file hfile => ?_).trans List.filterMap_some
    exact congrArg some (normalizeFrom_configured hfile)
  rw [agenda, htargets]
  exact List.filter_eq_self.mpr fun file hfile => by simpa using hfile

end Session

/-- A traversal that comes to its end is a depth-first search. -/
theorem Traversal.depthFirst {s : Session} {files visited : List String} {tasks : List Task}
    {steps : List Step} (h : Traversal s files visited tasks steps none) :
    DepthFirst (s.next files) visited (s.agenda files tasks) (entered steps) (left steps) := by
  generalize hnone : none = ended at h
  induction h with
  | done => exact .done
  | act _ ih => exact ih hnone
  | @pass visited origin path _ _ _ hstale _ ih =>
      rw [s.agenda_follow]
      split
      · next hfile =>
        have hseen : s.normalizeFrom origin path ∈ visited := by
          by_contra hnot
          exact hstale ⟨hfile, hnot⟩
        exact .skip hseen (ih hnone)
      · exact ih hnone
  | visit hpath hfresh _ _ _ ihinner ihrest =>
      subst hpath
      have hinner := ihinner rfl
      rw [s.agenda_tasks] at hinner
      rw [s.agenda_follow, if_pos hfresh.1]
      simp only [entered_enter, entered_append, entered_leave, left_enter, left_append, left_leave]
      exact .enter hfresh.2 hinner (ihrest hnone)
  | interrupted => cases hnone
  | unreadable => cases hnone

namespace Session

variable {s : Session} {paths : List String} {steps : List Step}

/-- The record was written by the walk of a configured file. -/
def WrittenFor (s : Session) (paths : List String) (file : String) (e : Emission) : Prop :=
  file ∈ s.configured paths ∧ ∃ a ∈ s.acts file, ∃ t, e ∈ a.emissions t

theorem Tour.writtenFor (h : s.Tour paths steps) {e : Emission} {t : Symbols} {file : String}
    (he : e ∈ Act.emitAll t (Step.acts steps)) (hfile : e.file? = some file) :
    s.WrittenFor paths file e := by
  obtain ⟨before, a, after, hacts, he⟩ := Act.mem_emitAll.mp he
  have ha : a ∈ Step.acts steps := hacts ▸ List.mem_append_right _ List.mem_cons_self
  obtain ⟨walked, hwalked, ha⟩ := h.mem_acts.mp ha
  have hsame : walked = file := by
    rcases Act.file?_of_mem_emissions he with hsome | hnone
    · rw [s.file_of_mem_acts ha, hfile] at hsome
      exact (Option.some.inj hsome).symm
    · rw [hfile] at hnone
      cases hnone
  subst hsame
  exact ⟨hwalked, a, ha, _, he⟩

/-- A run has gone through its files as a depth-first search does. -/
structure Searched (s : Session) (paths : List String) (run : Run) (report : Report)
    (pre post : List String) : Prop where
  search : DepthFirst (s.next (s.configured paths)) [] (s.configured paths) pre post
  /-- No other orders are those of the search. -/
  only : ∀ pre' post', DepthFirst (s.next (s.configured paths)) [] (s.configured paths) pre' post' →
    pre' = pre ∧ post' = post
  report : report.map (·.path) = post
  /-- Every configured file is reported once, and no other file is. -/
  once : post.Nodup ∧ ∀ file, file ∈ post ↔ file ∈ s.configured paths
  parses : s.twoPass = false → run.parses.toList = pre.filter fun file => (s.readFile file).isOk
  visited : run.visited = pre ∧ pre.Nodup ∧ ∀ file, file ∈ pre ↔ file ∈ s.configured paths
  definitions : ∀ d ∈ run.store.definitions, s.WrittenFor paths d.file (.definition d)
  references : ∀ r ∈ run.store.references, s.WrittenFor paths r.file (.reference r)

/-- Processing a file satisfies its recursion without any bound, and a run is a
depth-first search through the inclusions, unless a configured file cannot be
read. -/
theorem process_searches_depth_first (s : Session) (paths : List String) :
    (∀ pass origin path run, s.processFile pass origin path run =
      let file := s.normalizeFrom origin path
      if !run.files.contains file || run.visited.contains file then .done run none
      else s.visit pass (s.processFile pass (some file)) file
        { run.logAll [.processing file origin] with visited := run.visited ++ [file] }) ∧
    match s.process paths {} with
    | .done run report => ∃ pre post, s.Searched paths run report pre post
    | .halted _ e => e.file ∈ s.configured paths ∧ s.Unreadable e.file := by
  refine ⟨processFile_eq, ?_⟩
  cases h : s.process paths {} with
  | halted run e => exact process_halted h
  | done run report =>
      obtain ⟨steps, htour, hfinished⟩ := process_done h
      have hsearch := Traversal.depthFirst htour
      rw [agenda_roots] at hsearch
      have hleft := htour.left_perm_entered
      refine ⟨entered steps, left steps, hsearch, fun _ _ h => h.unique hsearch, hfinished.report,
        ?_, hfinished.parses, ?_, ?_, ?_⟩
      · exact ⟨hleft.nodup_iff.mpr htour.nodup_entered,
          fun _ => hleft.mem_iff.trans htour.mem_entered⟩
      · exact ⟨hfinished.visited, htour.nodup_entered, fun _ => htour.mem_entered⟩
      · intro d hd
        have hwritten := hfinished.written.mem_iff.mp (List.mem_append_left _ hd)
        exact htour.writtenFor (Emission.mem_filterMap_definition?.mp hwritten) rfl
      · intro r hr
        rw [hfinished.references] at hr
        have hwritten := (Reference.mem_foldl_addTo hr).resolve_right List.not_mem_nil
        exact htour.writtenFor (Emission.mem_filterMap_reference?.mp hwritten) rfl

end Session

end SymbolGraph
