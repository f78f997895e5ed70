import SymbolGraph.Proofs.VisitOrder

/-!
# `Proofs.Halt` — when a run halts, at which file, and what becomes of the visits around it

A run halts if and only if the system REFUSES a configured file: its size, or its
bytes although they are not too many.  Nothing else halts a run, whatever the parser
gives.

The search through the inclusions goes on past a file that is refused, as past one
that includes nothing, so the order in which it enters the files is there whether the
run halts or not.  Against this order:

    the visits that have begun go up to the first refused file       `Traversal.entered_of_halted`
    those that have not ended form a chain of inclusions down to it  `Traversal.open_visits`

The files of the chain are the visits around the refused file.  None of them is
reported.
-/

namespace SymbolGraph

open Step

/-! ## The search comes to its end -/

theorem unseen_lt {α : Type} [DecidableEq α] {nodes seen : List α} {x : α} (hx : x ∈ nodes)
    (hnew : x ∉ seen) (more : List α) :
    (nodes.filter (· ∉ seen ++ x :: more)).length < (nodes.filter (· ∉ seen)).length := by
  have hsub : (nodes.filter (· ∉ seen ++ x :: more)).Sublist (nodes.filter (· ∉ seen)) := by
    refine List.monotone_filter_right _ fun y hy => ?_
    simp only [List.mem_append, not_or, decide_eq_true_eq] at hy ⊢
    exact hy.1
  refine Nat.lt_of_le_of_ne hsub.length_le fun heq => ?_
  have hmem : x ∈ nodes.filter (· ∉ seen) := List.mem_filter.mpr ⟨hx, by simpa using hnew⟩
  rw [← hsub.eq_of_length heq] at hmem
  simpa using (List.mem_filter.mp hmem).2

/-- From finitely many nodes, however they lead to one another, the search comes to
its end. -/
theorem DepthFirst.exists_search {α : Type} [DecidableEq α] {next : α → List α} {nodes : List α}
    (hnext : ∀ x, next x ⊆ nodes) : ∀ (seen agenda : List α), agenda ⊆ nodes →
      ∃ pre post, DepthFirst next seen agenda pre post
  | _, [], _ => ⟨[], [], .done⟩
  | seen, x :: agenda, hagenda => by
      obtain ⟨hx, hagenda⟩ := List.cons_subset.mp hagenda
      by_cases hseen : x ∈ seen
      · obtain ⟨pre, post, hrest⟩ := exists_search hnext seen agenda hagenda
        exact ⟨pre, post, .skip hseen hrest⟩
      · -- The node is new, so both searches behind it have fewer nodes to see.
        have hless := unseen_lt hx hseen
        obtain ⟨inner, innerPost, hinner⟩ := exists_search hnext (seen ++ [x]) (next x) (hnext x)
        obtain ⟨pre, post, hrest⟩ := exists_search hnext (seen ++ x :: inner) agenda hagenda
        exact ⟨_, _, .enter hseen hinner hrest⟩
termination_by seen agenda => ((nodes.filter (· ∉ seen)).length, agenda.length)
decreasing_by
  · exact Prod.Lex.right _ (by simp)
  · exact Prod.Lex.left _ _ (hless [])
  · exact Prod.Lex.left _ _ (hless inner)

/-- A node that has not been seen is entered. -/
theorem DepthFirst.of_fresh {α : Type} {next : α → List α} {seen agenda pre post : List α} {x : α}
    (h : DepthFirst next seen (x :: agenda) pre post) (hnew : x ∉ seen) :
    ∃ inner innerPost later laterPost, pre = x :: (inner ++ later) ∧
      DepthFirst next (seen ++ [x]) (next x) inner innerPost ∧
      DepthFirst next (seen ++ x :: inner) agenda later laterPost := by
  cases h with
  | skip hseen _ => exact absurd hseen hnew
  | enter _ hinner hrest => exact ⟨_, _, _, _, rfl, hinner, hrest⟩

/-! ## A traversal that halts -/

namespace Traversal

variable {s : Session} {files visited : List String} {tasks : List Task} {steps : List Step}
  {file : String}

/-- The visits that have begun where a traversal halts: they are the start of the
search, up to the first file that cannot be read. -/
theorem entered_of_halted (h : Traversal s files visited tasks steps (some file))
    {pre post : List String}
    (hsearch : DepthFirst (s.next files) visited (s.agenda files tasks) pre post) :
    ∃ before after, entered steps = before ++ [file] ∧ pre = before ++ file :: after ∧
      ∀ f ∈ before, ¬ s.Unreadable f := by
  generalize hsome : some file = ended at h
  induction h generalizing pre post with
  | done => cases hsome
  | act _ ih => exact ih hsearch hsome
  | @pass visited origin path _ _ _ hstale _ ih =>
      rw [s.agenda_follow] at hsearch
      split at hsearch
      · next hfile =>
        cases hsearch with
        | skip _ hrest => exact ih hrest hsome
        | enter hnew _ _ => exact absurd ⟨hfile, hnew⟩ hstale
      · exact ih hsearch hsome
  | @visit visited origin path _ _ inner steps _ hpath hfresh hread hinner _ _ ihrest =>
      subst hpath
      rw [s.agenda_follow, if_pos hfresh.1] at hsearch
      obtain ⟨_, _, _, _, rfl, hsearched, hrest⟩ := hsearch.of_fresh hfresh.2
      have hwhole := hinner.depthFirst
      rw [s.agenda_tasks] at hwhole
      obtain ⟨rfl, -⟩ := hsearched.unique hwhole
      obtain ⟨before, after, hentered, rfl, hbefore⟩ := ihrest hrest hsome
      refine ⟨s.normalizeFrom origin path :: (entered inner ++ before), after, ?_, ?_, ?_⟩
      · simp [hentered]
      · simp
      · intro f hf
        rcases List.mem_cons.mp hf with rfl | hf
        · exact hread
        · rcases List.mem_append.mp hf with hf | hf
          · exact hinner.readable_of_mem_entered hf
          · exact hbefore f hf
  | @interrupted visited origin path _ _ _ inner hpath hfresh hread _ ihinner =>
      subst hpath
      rw [s.agenda_follow, if_pos hfresh.1] at hsearch
      obtain ⟨_, _, later, _, rfl, hsearched, -⟩ := hsearch.of_fresh hfresh.2
      rw [← s.agenda_tasks] at hsearched
      obtain ⟨before, after, hentered, rfl, hbefore⟩ := ihinner hsearched hsome
      refine ⟨s.normalizeFrom origin path :: before, after ++ later, ?_, ?_, ?_⟩
      · simp [hentered]
      · simp
      · intro f hf
        rcases List.mem_cons.mp hf with rfl | hf
        · exact hread
        · exact hbefore f hf
  | unreadable hpath hfresh _ =>
      subst hpath
      cases hsome
      rw [s.agenda_follow, if_pos hfresh.1] at hsearch
      obtain ⟨_, _, _, _, rfl, -, -⟩ := hsearch.of_fresh hfresh.2
      exact ⟨[], _, rfl, rfl, fun _ => nofun⟩

/-- The visits that have not ended where a traversal halts: each file includes the
next one, and the last one cannot be read. -/
theorem open_visits (h : Traversal s files visited tasks steps (some file)) :
    ∃ root chain, root ∈ s.agenda files tasks ∧
      (root :: chain).IsChain (fun f g => g ∈ s.next files f) ∧
      (root :: chain).getLast? = some file ∧
      (left steps ++ root :: chain).Perm (entered steps) := by
  generalize hsome : some file = ended at h
  induction h with
  | done => cases hsome
  | act _ ih => exact ih hsome
  | @pass _ origin path _ _ _ _ _ ih =>
      obtain ⟨root, chain, hroot, hchain⟩ := ih hsome
      refine ⟨root, chain, ?_, hchain⟩
      rw [s.agenda_follow]
      split
      · exact List.mem_cons_of_mem _ hroot
      · exact hroot
  | visit hpath hfresh _ hinner _ _ ihrest =>
      obtain ⟨root, chain, hroot, hlinked, hlast, hperm⟩ := ihrest hsome
      refine ⟨root, chain, ?_, hlinked, hlast, ?_⟩
      · subst hpath
        rw [s.agenda_follow, if_pos hfresh.1]
        exact List.mem_cons_of_mem _ hroot
      · simp only [left_enter, left_append, left_leave, entered_enter, entered_append,
          entered_leave, List.append_assoc, List.cons_append]
        exact List.perm_middle.trans ((hinner.left_perm_entered.append hperm).cons _)
  | @interrupted _ _ _ entry _ _ inner hpath hfresh _ _ ihinner =>
      obtain ⟨root, chain, hroot, hlinked, hlast, hperm⟩ := ihinner hsome
      rw [s.agenda_tasks] at hroot
      refine ⟨entry, root :: chain, ?_, .cons_cons hroot hlinked, ?_, ?_⟩
      · subst hpath
        rw [s.agenda_follow, if_pos hfresh.1]
        exact List.mem_cons_self
      · rwa [List.getLast?_cons_cons]
      · simp only [left_enter, entered_enter]
        exact List.perm_middle.trans (hperm.cons _)
  | unreadable hpath hfresh _ =>
      subst hpath
      cases hsome
      refine ⟨_, [], ?_, .singleton _, rfl, .refl _⟩
      rw [s.agenda_follow, if_pos hfresh.1]
      exact List.mem_cons_self

end Traversal

/-! ## Runs -/

namespace Session

/-- The system gives a reason not to tell the size of a file, or not to give its bytes
although they are not too many. -/
def Refuses (s : Session) (file reason : String) : Prop :=
  s.sources.size file = .error (.system reason) ∨
    ∃ size, s.sources.size file = .ok size ∧ size ≤ s.sizeLimit ∧
      s.sources.read file = .error (.system reason)

theorem content_eq_unreadable {s : Session} {file reason : String} :
    s.content file = .unreadable reason ↔ s.Refuses file reason := by
  unfold content readFile Refuses
  cases hsize : s.sources.size file with
  | error e => cases e <;> simp
  | ok size =>
      by_cases hlarge : s.sizeLimit < size
      · simp [hlarge, Nat.not_le.mpr hlarge]
      · cases hbytes : s.sources.read file with
        | error e => cases e <;> simp [hlarge, Nat.not_lt.mp hlarge]
        | ok bytes =>
            simp only [if_neg hlarge]
            cases (s.sources.parse bytes file).2 <;> simp

theorem next_subset {s : Session} {files : List String} (file : String) :
    s.next files file ⊆ files := fun _ h => by simpa using (List.mem_filter.mp h).2

theorem unreadable_iff {s : Session} {file : String} :
    s.Unreadable file ↔ ∃ reason, s.Refuses file reason := by
  simp only [Unreadable, content_eq_unreadable]

/-- A run has halted at a file. -/
structure HaltedAt (s : Session) (paths : List String) (run : Run) (e : ReadError) : Prop where
  refused : s.Refuses e.file e.reason
  /-- The file is the first one refused in the order of the search, and the last one
  visited. -/
  first : ∃ pre post, DepthFirst (s.next (s.configured paths)) [] (s.configured paths) pre post ∧
    ∃ before after, pre = before ++ e.file :: after ∧ run.visited = before ++ [e.file] ∧
      ∀ f ∈ before, ∀ reason, ¬ s.Refuses f reason
  /-- The visits around it, from a configured file down to the file itself, have no
  result; all other visits that began have ended. -/
  enclosing : ∃ root chain, root ∈ s.configured paths ∧
    (root :: chain).IsChain (fun f g => g ∈ s.next (s.configured paths) f) ∧
    (root :: chain).getLast? = some e.file ∧
    (∀ f ∈ root :: chain, f ∈ run.visited ∧ f ∉ run.report.map (·.path)) ∧
    (s.twoPass = false → ∀ f ∈ run.visited, f ∉ root :: chain → f ∈ run.report.map (·.path))

theorem haltedAt {s : Session} {paths : List String} {run : Run} {e : ReadError}
    (h : s.process paths {} = .halted run e) : s.HaltedAt paths run e := by
  obtain ⟨steps, htraversal, hhalted⟩ := process_traversal h
  have hagenda : s.agenda (s.configured paths) (s.roots paths) = s.configured paths :=
    s.agenda_roots paths
  refine ⟨content_eq_unreadable.mp hhalted.content, ?_, ?_⟩
  · obtain ⟨pre, post, hsearch⟩ : ∃ pre post,
        DepthFirst (s.next (s.configured paths)) [] (s.configured paths) pre post :=
      DepthFirst.exists_search next_subset [] _ (List.Subset.refl _)
    obtain ⟨before, after, hentered, hpre, hbefore⟩ :=
      htraversal.entered_of_halted (by rwa [hagenda])
    refine ⟨pre, post, hsearch, before, after, hpre, hhalted.visited.trans hentered, ?_⟩
    intro f hf reason hrefused
    exact hbefore f hf (unreadable_iff.mpr ⟨reason, hrefused⟩)
  · obtain ⟨root, chain, hroot, hlinked, hlast, hperm⟩ := htraversal.open_visits
    have hnodup := hperm.nodup_iff.mpr htraversal.nodup_entered
    have hreport : run.report.map (·.path) ⊆ left steps := by
      rw [hhalted.report]
      split
      · exact List.nil_subset _
      · exact List.Subset.refl _
    refine ⟨root, chain, hagenda ▸ hroot, hlinked, hlast, fun f hf => ⟨?_, ?_⟩, ?_⟩
    · rw [hhalted.visited]
      exact hperm.mem_iff.mp (List.mem_append_right _ hf)
    · exact fun hleft => (List.nodup_append.mp hnodup).2.2 f (hreport hleft) f hf rfl
    · intro hone f hf hnot
      rw [hhalted.visited] at hf
      rw [hhalted.report, hone]
      exact (List.mem_append.mp (hperm.mem_iff.mpr hf)).resolve_right hnot

/-- A run halts if and only if a configured file is refused, whatever the parser gives.
It halts at the first such file of the search through the inclusions, for the reason
that the system gave, and none of the visits around that file has a result. -/
theorem halts_at_first_refused (s : Session) (paths : List String) :
    ((∃ run e, s.process paths {} = .halted run e) ↔
      ∃ file ∈ s.configured paths, ∃ reason, s.Refuses file reason) ∧
    (∀ parse, (∃ run e, ({ s with sources := { s.sources with parse } } : Session).process paths {}
        = .halted run e) ↔ ∃ run e, s.process paths {} = .halted run e) ∧
    match s.process paths {} with
    | .done _ _ => ∀ file ∈ s.configured paths, ∀ reason, ¬ s.Refuses file reason
    | .halted run e => s.HaltedAt paths run e := by
  have hiff : ∀ s : Session, (∃ run e, s.process paths {} = .halted run e) ↔
      ∃ file ∈ s.configured paths, ∃ reason, s.Refuses file reason := by
    intro s
    constructor
    · rintro ⟨run, e, h⟩
      obtain ⟨hfile, hun⟩ := process_halted h
      exact ⟨e.file, hfile, unreadable_iff.mp hun⟩
    · rintro ⟨file, hfile, hrefused⟩
      cases h : s.process paths {} with
      | done run report =>
          have hread := (s.process_done_iff paths).mp ⟨run, report, h⟩ file hfile
          exact absurd (unreadable_iff.mpr hrefused) hread
      | halted run e => exact ⟨run, e, rfl⟩
  refine ⟨hiff s, fun parse => ?_, ?_⟩
  · rw [hiff, hiff]
    rfl
  · cases h : s.process paths {} with
    | done run report =>
        intro file hfile reason hrefused
        obtain ⟨_, _, hhalted⟩ := (hiff s).mpr ⟨file, hfile, reason, hrefused⟩
        rw [h] at hhalted
        cases hhalted
    | halted run e => exact haltedAt h

end Session

end SymbolGraph
