import Mathlib.Data.List.Nodup
import SymbolGraph.Proofs.Act
import SymbolGraph.Run

/-!
# `Proofs.Traversal` — the order in which a pass goes through the files

Which files a pass visits, in which order, and which acts it performs between
their beginnings and their ends, depends on the files alone: not on the tables,
not on the store and not on which of two passes it is.  `Traversal` says this
order by rules, as a relation

    Traversal s files visited tasks steps stop

"with these files visited before, the tasks are done by these steps".  `stop`
names the file that could not be read, if there was one: a pass that halts has
a traversal, too, which ends there.

An inclusion that leads to no configured file, or to one visited before, is
passed by; any other one is the whole visit of a file, inside the visit around
it.  No rule needs a bound on the depth: a derivation is finite.
-/

namespace SymbolGraph

/-! ## What a file holds -/

namespace Session

/-- What a file holds, as the disk and the parser have it. -/
def content (s : Session) (file : String) : Loaded :=
  match s.readFile file with
  | .error other => other
  | .ok bytes =>
      match (s.sources.parse bytes file).2 with
      | .ok p => .parsed p
      | .error e => .failed e.message

/-- What a file is parsed into, if it can be read and parses. -/
def parsed? (s : Session) (file : String) : Option Parsed :=
  match s.content file with
  | .parsed p => some p
  | _ => none

/-- What went wrong with a file that the system does not refuse. -/
def failure? (s : Session) (file : String) : Option String :=
  match s.content file with
  | .failed reason => some reason
  | _ => none

/-- The tree of a file, if it can be read and parses. -/
def tree? (s : Session) (file : String) : Option Node := (s.parsed? file).map (·.tree)

/-- The system refuses the file. -/
def Unreadable (s : Session) (file : String) : Prop := ∃ reason, s.content file = .unreadable reason

theorem readable_of_tree? {s : Session} {file : String} {tree : Node}
    (h : s.tree? file = some tree) : ¬ s.Unreadable file := by
  rintro ⟨reason, hcontent⟩
  rw [tree?, parsed?, hcontent] at h
  cases h

theorem tree?_of_parse {s : Session} {file : String} {bytes : Octets} {p : Parsed}
    (hread : s.readFile file = .ok bytes) (hparse : (s.sources.parse bytes file).2 = .ok p) :
    s.tree? file = some p.tree := by
  simp [tree?, parsed?, content, hread, hparse]

end Session

/-- What is to be done: follow a path, or perform an act. -/
inductive Task where
  | follow (origin : Option String) (path : String)
  | act (a : Act)

namespace Task

def action : Task → Action
  | .follow _ path => .inclusion path
  | .act a => a.action

def act? : Task → Option Act
  | .follow .. => none
  | .act a => some a

/-- The tasks of a file, with the state in which each of its steps is performed. -/
def ofActions (file : String) : List Action → Walker → List Task
  | [], _ => []
  | .inclusion path :: rest, w => .follow (some file) path :: ofActions file rest w
  | a :: rest, w => .act ⟨file, w, a⟩ :: ofActions file rest (a.moved w)

theorem ofActions_cons (file : String) {a : Action} (ha : ∀ path, a ≠ .inclusion path)
    (rest : List Action) (w : Walker) :
    ofActions file (a :: rest) w = .act ⟨file, w, a⟩ :: ofActions file rest (a.moved w) := by
  cases a with
  | inclusion path => exact absurd rfl (ha path)
  | _ => rfl

theorem map_action_ofActions (file : String) : ∀ (as : List Action) (w : Walker),
    (ofActions file as w).map action = as
  | [], _ => by simp [ofActions]
  | a :: rest, w => by
      cases a <;> simp [ofActions, action, map_action_ofActions file rest]

theorem ofActions_append (file : String) (bs : List Action) : ∀ (as : List Action) (w : Walker),
    ofActions file (as ++ bs) w = ofActions file as w ++ ofActions file bs (w.after as)
  | [], _ => rfl
  | a :: rest, w => by
      have ih := ofActions_append file bs rest (a.moved w)
      cases a with
      | inclusion path => exact congrArg _ ih
      | _ => exact congrArg _ ih

end Task

namespace Act

/-- The acts of some steps of a file, from a state of its walk on. -/
def ofActions (file : String) (steps : List Action) (w : Walker) : List Act :=
  (Task.ofActions file steps w).filterMap Task.act?

theorem ofActions_append (file : String) (as bs : List Action) (w : Walker) :
    ofActions file (as ++ bs) w = ofActions file as w ++ ofActions file bs (w.after as) := by
  rw [ofActions, Task.ofActions_append, List.filterMap_append]
  rfl

theorem ofActions_cons (file : String) {a : Action} (ha : ∀ path, a ≠ .inclusion path)
    (rest : List Action) (w : Walker) :
    ofActions file (a :: rest) w = ⟨file, w, a⟩ :: ofActions file rest (a.moved w) := by
  rw [ofActions, Task.ofActions_cons file ha]
  rfl

/-- An act is a step of the file, in the state behind the steps before it. -/
theorem exists_of_mem_ofActions {file : String} {a : Act} :
    ∀ {steps : List Action} {w : Walker}, a ∈ ofActions file steps w →
      ∃ before after, steps = before ++ a.action :: after ∧ a.file = file ∧
        a.walker = w.after before
  | [], _, h => absurd h List.not_mem_nil
  | b :: rest, w, h => by
      by_cases hb : ∃ path, b = .inclusion path
      · obtain ⟨path, rfl⟩ := hb
        have hrest : a ∈ ofActions file rest w := h
        obtain ⟨before, after, rfl, hfile, hwalker⟩ := exists_of_mem_ofActions hrest
        exact ⟨.inclusion path :: before, after, rfl, hfile, hwalker⟩
      · rw [ofActions_cons file fun path hpath => hb ⟨path, hpath⟩] at h
        rcases List.mem_cons.mp h with rfl | h
        · exact ⟨[], rest, rfl, rfl, rfl⟩
        · obtain ⟨before, after, rfl, hfile, hwalker⟩ := exists_of_mem_ofActions h
          exact ⟨b :: before, after, rfl, hfile, hwalker⟩

end Act

theorem Task.file_of_mem_ofActions {file : String} {as : List Action} {w : Walker} {a : Act}
    (h : .act a ∈ ofActions file as w) : a.file = file := by
  obtain ⟨-, -, -, hfile, -⟩ :=
    Act.exists_of_mem_ofActions (List.mem_filterMap.mpr ⟨_, h, rfl⟩)
  exact hfile

namespace Session

/-- What is to be done when a file is visited. -/
def tasks (s : Session) (file : String) : List Task :=
  match s.tree? file with
  | some tree => Task.ofActions file (tree.actions {}) {}
  | none => []

/-- The acts of a file. -/
def acts (s : Session) (file : String) : List Act := (s.tasks file).filterMap Task.act?

theorem acts_eq {s : Session} {file : String} {tree : Node} (h : s.tree? file = some tree) :
    s.acts file = Act.ofActions file (tree.actions {}) {} := by
  rw [acts, tasks, h]
  rfl

/-- The files that a file includes, in document order. -/
def includes (s : Session) (file : String) : List String :=
  match s.tree? file with
  | some tree => (tree.actions {}).filterMap fun
      | .inclusion path => some (s.normalizeFrom (some file) path)
      | _ => none
  | none => []

theorem exists_of_mem_acts {s : Session} {file : String} {a : Act} (h : a ∈ s.acts file) :
    ∃ tree before after, s.tree? file = some tree ∧
      tree.actions {} = before ++ a.action :: after ∧ a.file = file ∧
      a.walker = ({} : Walker).after before := by
  cases htree : s.tree? file with
  | none =>
      rw [acts, tasks, htree] at h
      cases h
  | some tree =>
      rw [acts_eq htree] at h
      obtain ⟨before, after, hsteps, hfile, hwalker⟩ := Act.exists_of_mem_ofActions h
      exact ⟨tree, before, after, rfl, hsteps, hfile, hwalker⟩

theorem file_of_mem_acts {s : Session} {file : String} {a : Act} (h : a ∈ s.acts file) :
    a.file = file := by
  obtain ⟨-, -, -, -, -, hfile, -⟩ := exists_of_mem_acts h
  exact hfile

theorem action_of_mem_acts {s : Session} {file : String} {a : Act} (h : a ∈ s.acts file) :
    ∃ tree, s.tree? file = some tree ∧ a.action ∈ tree.actions {} := by
  obtain ⟨tree, before, after, htree, hsteps, -⟩ := exists_of_mem_acts h
  exact ⟨tree, htree, hsteps ▸ List.mem_append_right _ List.mem_cons_self⟩

theorem tasks_announced (s : Session) (file : String) :
    Announced ((s.tasks file).map Task.action) := by
  unfold tasks
  split
  · next tree _ =>
    rw [Task.map_action_ofActions]
    exact (Node.script {} tree).announced
  · trivial

end Session

/-! ## Steps -/

/-- One step of a pass. -/
inductive Step where
  | enter (file : String)
  | act (a : Act)
  | leave (file : String)

namespace Step

/-- The files whose visits begin, in order. -/
def entered (steps : List Step) : List String :=
  steps.filterMap fun
    | .enter file => some file
    | _ => none

/-- The files whose visits end, in order. -/
def left (steps : List Step) : List String :=
  steps.filterMap fun
    | .leave file => some file
    | _ => none

/-- The acts of all files, in order. -/
def acts (steps : List Step) : List Act :=
  steps.filterMap fun
    | .act a => some a
    | _ => none

variable (steps more : List Step) (file : String) (a : Act)

@[simp] theorem entered_nil : entered [] = [] := rfl
@[simp] theorem entered_enter : entered (.enter file :: steps) = file :: entered steps := rfl
@[simp] theorem entered_act : entered (.act a :: steps) = entered steps := rfl
@[simp] theorem entered_leave : entered (.leave file :: steps) = entered steps := rfl
@[simp] theorem entered_append : entered (steps ++ more) = entered steps ++ entered more := by
  simp [entered]

@[simp] theorem left_nil : left [] = [] := rfl
@[simp] theorem left_enter : left (.enter file :: steps) = left steps := rfl
@[simp] theorem left_act : left (.act a :: steps) = left steps := rfl
@[simp] theorem left_leave : left (.leave file :: steps) = file :: left steps := rfl
@[simp] theorem left_append : left (steps ++ more) = left steps ++ left more := by
  simp [left]

@[simp] theorem acts_nil : acts [] = [] := rfl
@[simp] theorem acts_enter : acts (.enter file :: steps) = acts steps := rfl
@[simp] theorem acts_act : acts (.act a :: steps) = a :: acts steps := rfl
@[simp] theorem acts_leave : acts (.leave file :: steps) = acts steps := rfl
@[simp] theorem acts_append : acts (steps ++ more) = acts steps ++ acts more := by
  simp [acts]

end Step

open Step

/-! ## The relation -/

/-- A configured file that was not visited. -/
def Fresh (files visited : List String) (file : String) : Prop := file ∈ files ∧ file ∉ visited

/-- The tasks are done by the steps, up to the file that cannot be read, if
there is one. -/
inductive Traversal (s : Session) (files : List String) :
    List String → List Task → List Step → Option String → Prop
  | done {visited : List String} : Traversal s files visited [] [] none
  | act {visited : List String} {a : Act} {rest : List Task} {steps : List Step}
      {stop : Option String} :
      Traversal s files visited rest steps stop →
      Traversal s files visited (.act a :: rest) (.act a :: steps) stop
  | pass {visited : List String} {origin : Option String} {path : String} {rest : List Task}
      {steps : List Step} {stop : Option String} :
      ¬ Fresh files visited (s.normalizeFrom origin path) →
      Traversal s files visited rest steps stop →
      Traversal s files visited (.follow origin path :: rest) steps stop
  | visit {visited : List String} {origin : Option String} {path file : String}
      {rest : List Task} {inner steps : List Step} {stop : Option String} :
      s.normalizeFrom origin path = file → Fresh files visited file → ¬ s.Unreadable file →
      Traversal s files (visited ++ [file]) (s.tasks file) inner none →
      Traversal s files (visited ++ file :: entered inner) rest steps stop →
      Traversal s files visited (.follow origin path :: rest)
        (.enter file :: (inner ++ .leave file :: steps)) stop
  | interrupted {visited : List String} {origin : Option String} {path file stop : String}
      {rest : List Task} {inner : List Step} :
      s.normalizeFrom origin path = file → Fresh files visited file → ¬ s.Unreadable file →
      Traversal s files (visited ++ [file]) (s.tasks file) inner (some stop) →
      Traversal s files visited (.follow origin path :: rest) (.enter file :: inner) (some stop)
  | unreadable {visited : List String} {origin : Option String} {path file : String}
      {rest : List Task} :
      s.normalizeFrom origin path = file → Fresh files visited file → s.Unreadable file →
      Traversal s files visited (.follow origin path :: rest) [.enter file] (some file)

namespace Traversal

variable {s : Session} {files visited : List String} {as bs : List Task} {steps more : List Step}
  {stop : Option String}

/-- A traversal that comes to its end is carried on by another. -/
theorem append (ha : Traversal s files visited as steps none)
    (hb : Traversal s files (visited ++ entered steps) bs more stop) :
    Traversal s files visited (as ++ bs) (steps ++ more) stop := by
  generalize hnone : none = ended at ha
  induction ha with
  | done => simpa using hb
  | act _ ih => exact .act (ih hb hnone)
  | pass hfresh _ ih => exact .pass hfresh (ih hb hnone)
  | @visit visited _ _ file _ inner steps _ hfile hfresh hread hinner _ _ ih =>
      have hrest := ih (by simpa using hb) hnone
      simpa using Traversal.visit hfile hfresh hread hinner hrest
  | interrupted => cases hnone
  | unreadable => cases hnone

/-- A traversal that halts leaves the remaining tasks alone. -/
theorem append_halted {file : String} (ha : Traversal s files visited as steps (some file)) :
    Traversal s files visited (as ++ bs) steps (some file) := by
  generalize hsome : some file = ended at ha
  induction ha with
  | done => cases hsome
  | act _ ih => exact .act (ih hsome)
  | pass hfresh _ ih => exact .pass hfresh (ih hsome)
  | visit hfile hfresh hread hinner _ _ ih => exact .visit hfile hfresh hread hinner (ih hsome)
  | interrupted hfile hfresh hread hinner _ => exact .interrupted hfile hfresh hread hinner
  | unreadable hfile hfresh hread => exact .unreadable hfile hfresh hread

/-- The files decide the steps. -/
theorem unique {stop' : Option String} (h : Traversal s files visited as steps stop)
    (h' : Traversal s files visited as more stop') : steps = more ∧ stop = stop' := by
  induction h generalizing more stop' with
  | done => cases h'; exact ⟨rfl, rfl⟩
  | act _ ih =>
      cases h' with
      | act h' => obtain ⟨rfl, rfl⟩ := ih h'; exact ⟨rfl, rfl⟩
  | pass hstale _ ih =>
      cases h' with
      | pass _ h' => exact ih h'
      | visit hfile hfresh => exact absurd hfresh (hfile ▸ hstale)
      | interrupted hfile hfresh => exact absurd hfresh (hfile ▸ hstale)
      | unreadable hfile hfresh => exact absurd hfresh (hfile ▸ hstale)
  | visit hfile hfresh hread _ _ ihinner ihrest =>
      subst hfile
      cases h' with
      | pass hstale => exact absurd hfresh hstale
      | visit hfile _ _ hinner hrest =>
          subst hfile
          obtain ⟨rfl, -⟩ := ihinner hinner
          obtain ⟨rfl, rfl⟩ := ihrest hrest
          exact ⟨rfl, rfl⟩
      | interrupted hfile _ _ hinner =>
          subst hfile
          cases (ihinner hinner).2
      | unreadable hfile _ hun => exact absurd (hfile ▸ hun) hread
  | interrupted hfile hfresh hread _ ihinner =>
      subst hfile
      cases h' with
      | pass hstale => exact absurd hfresh hstale
      | visit hfile _ _ hinner _ =>
          subst hfile
          cases (ihinner hinner).2
      | interrupted hfile _ _ hinner =>
          subst hfile
          obtain ⟨rfl, hstop⟩ := ihinner hinner
          exact ⟨rfl, hstop⟩
      | unreadable hfile _ hun => exact absurd (hfile ▸ hun) hread
  | unreadable hfile hfresh hun =>
      subst hfile
      cases h' with
      | pass hstale => exact absurd hfresh hstale
      | visit hfile _ hread => exact absurd hun (hfile ▸ hread)
      | interrupted hfile _ hread => exact absurd hun (hfile ▸ hread)
      | unreadable hfile => subst hfile; exact ⟨rfl, rfl⟩

/-- Nor do they depend on how many passes there are. -/
theorem withPasses (h : Traversal s files visited as steps stop) (twoPass : Bool) :
    Traversal { s with twoPass } files visited as steps stop := by
  induction h with
  | done => exact .done
  | act _ ih => exact .act ih
  | pass hstale _ ih => exact .pass hstale ih
  | visit hfile hfresh hread _ _ ihinner ihrest => exact .visit hfile hfresh hread ihinner ihrest
  | interrupted hfile hfresh hread _ ihinner => exact .interrupted hfile hfresh hread ihinner
  | unreadable hfile hfresh hun => exact .unreadable hfile hfresh hun

/-! ## Every file once -/

theorem fresh_of_mem_entered (h : Traversal s files visited as steps stop) {file : String}
    (hfile : file ∈ entered steps) : Fresh files visited file := by
  induction h with
  | done => cases hfile
  | act _ ih => exact ih hfile
  | pass _ _ ih => exact ih hfile
  | visit _ hfresh _ _ _ ihinner ihrest =>
      simp only [entered_enter, entered_append, entered_leave, List.mem_cons,
        List.mem_append] at hfile
      rcases hfile with rfl | hfile | hfile
      · exact hfresh
      · obtain ⟨hmem, hnot⟩ := ihinner hfile
        exact ⟨hmem, fun hv => hnot (List.mem_append_left _ hv)⟩
      · obtain ⟨hmem, hnot⟩ := ihrest hfile
        exact ⟨hmem, fun hv => hnot (List.mem_append_left _ hv)⟩
  | interrupted _ hfresh _ _ ihinner =>
      rcases List.mem_cons.mp hfile with rfl | hfile
      · exact hfresh
      · obtain ⟨hmem, hnot⟩ := ihinner hfile
        exact ⟨hmem, fun hv => hnot (List.mem_append_left _ hv)⟩
  | unreadable _ hfresh _ =>
      rw [List.mem_singleton.mp hfile]
      exact hfresh

theorem nodup_entered (h : Traversal s files visited as steps stop) : (entered steps).Nodup := by
  induction h with
  | done => exact List.nodup_nil
  | act _ ih => exact ih
  | pass _ _ ih => exact ih
  | @visit visited _ _ file _ inner steps _ _ _ _ hinner hrest ihinner ihrest =>
      have hnew : file ∉ entered inner := fun hin =>
        (hinner.fresh_of_mem_entered hin).2 (by simp)
      have hlater : ∀ f ∈ entered steps, f ≠ file ∧ f ∉ entered inner := by
        intro f hf
        have hnot := (hrest.fresh_of_mem_entered hf).2
        constructor
        · rintro rfl
          exact hnot (by simp)
        · intro hin
          exact hnot (by simp [hin])
      simp only [entered_enter, entered_append, entered_leave]
      refine List.nodup_cons.mpr ⟨?_, List.nodup_append.mpr ⟨ihinner, ihrest, ?_⟩⟩
      · intro hmem
        rcases List.mem_append.mp hmem with hin | hin
        · exact hnew hin
        · exact (hlater file hin).1 rfl
      · rintro f hf _ hg rfl
        exact (hlater f hg).2 hf
  | interrupted _ _ _ hinner ihinner =>
      refine List.nodup_cons.mpr ⟨fun hin => ?_, ihinner⟩
      exact (hinner.fresh_of_mem_entered hin).2 (by simp)
  | unreadable => exact List.nodup_singleton _

/-- A traversal halts at a configured file that cannot be read. -/
theorem unreadable_of_halted {file : String} (h : Traversal s files visited as steps (some file)) :
    file ∈ files ∧ s.Unreadable file := by
  generalize hsome : some file = ended at h
  induction h with
  | done => cases hsome
  | act _ ih => exact ih hsome
  | pass _ _ ih => exact ih hsome
  | visit _ _ _ _ _ _ ihrest => exact ihrest hsome
  | interrupted _ _ _ _ ihinner => exact ihinner hsome
  | unreadable _ hfresh hun =>
      cases hsome
      exact ⟨hfresh.1, hun⟩

theorem readable_of_mem_entered (h : Traversal s files visited as steps none) {file : String}
    (hfile : file ∈ entered steps) : ¬ s.Unreadable file := by
  generalize hnone : none = ended at h
  induction h with
  | done => cases hfile
  | act _ ih => exact ih hfile hnone
  | pass _ _ ih => exact ih hfile hnone
  | visit _ _ hread _ _ ihinner ihrest =>
      simp only [entered_enter, entered_append, entered_leave, List.mem_cons,
        List.mem_append] at hfile
      rcases hfile with rfl | hfile | hfile
      · exact hread
      · exact ihinner hfile rfl
      · exact ihrest hfile hnone
  | interrupted => cases hnone
  | unreadable => cases hnone

/-- Where a traversal comes to its end, no configured file that it was to follow
is left out. -/
theorem mem_of_follow (h : Traversal s files visited as steps none) {origin : Option String}
    {path : String} (htask : .follow origin path ∈ as)
    (hfile : s.normalizeFrom origin path ∈ files) :
    s.normalizeFrom origin path ∈ visited ++ entered steps := by
  generalize hnone : none = ended at h
  induction h with
  | done => cases htask
  | act _ ih =>
      rcases List.mem_cons.mp htask with heq | htask
      · cases heq
      · exact ih htask hnone
  | @pass visited _ _ _ steps _ hstale _ ih =>
      rcases List.mem_cons.mp htask with heq | htask
      · cases heq
        -- Passed by although configured: visited before.
        have hv : s.normalizeFrom origin path ∈ visited := by
          by_contra hnot
          exact hstale ⟨hfile, hnot⟩
        exact List.mem_append_left _ hv
      · exact ih htask hnone
  | visit hpath _ _ _ _ _ ihrest =>
      rcases List.mem_cons.mp htask with heq | htask
      · cases heq
        simp [hpath]
      · simpa using ihrest htask hnone
  | interrupted => cases hnone
  | unreadable => cases hnone

/-- No visit ends that has not begun. -/
theorem left_subset_entered (h : Traversal s files visited as steps stop) :
    left steps ⊆ entered steps := by
  induction h with
  | done => exact List.Subset.refl _
  | act _ ih => exact ih
  | pass _ _ ih => exact ih
  | visit _ _ _ _ _ ihinner ihrest =>
      simp only [left_enter, left_append, left_leave, entered_enter, entered_append, entered_leave]
      refine List.append_subset.mpr ⟨fun f hf => ?_, List.cons_subset.mpr ⟨by simp, fun f hf => ?_⟩⟩
      · exact List.mem_cons_of_mem _ (List.mem_append_left _ (ihinner hf))
      · exact List.mem_cons_of_mem _ (List.mem_append_right _ (ihrest hf))
  | interrupted _ _ _ _ ihinner => exact List.subset_cons_of_subset _ ihinner
  | unreadable => exact List.nil_subset _

/-- Every visit that begins comes to its end. -/
theorem left_perm_entered (h : Traversal s files visited as steps none) :
    (left steps).Perm (entered steps) := by
  generalize hnone : none = ended at h
  induction h with
  | done => exact .refl _
  | act _ ih => exact ih hnone
  | pass _ _ ih => exact ih hnone
  | visit _ _ _ _ _ ihinner ihrest =>
      simp only [left_enter, left_append, left_leave, entered_enter, entered_append, entered_leave]
      exact List.perm_middle.trans (((ihinner rfl).append (ihrest hnone)).cons _)
  | interrupted => cases hnone
  | unreadable => cases hnone

/-! ## The acts -/

/-- An act was to be done from the start, or its file is visited on the way. -/
theorem file_of_mem_acts (h : Traversal s files visited as steps stop) {a : Act}
    (ha : a ∈ acts steps) : .act a ∈ as ∨ a.file ∈ entered steps := by
  have htasks : ∀ {file : String} {b : Act}, .act b ∈ s.tasks file → b.file = file := fun hb =>
    s.file_of_mem_acts (List.mem_filterMap.mpr ⟨_, hb, rfl⟩)
  induction h with
  | done => cases ha
  | act _ ih =>
      rcases List.mem_cons.mp ha with rfl | ha
      · exact Or.inl List.mem_cons_self
      · exact (ih ha).imp_left (List.mem_cons_of_mem _)
  | pass _ _ ih => exact (ih ha).imp_left (List.mem_cons_of_mem _)
  | visit _ _ _ _ _ ihinner ihrest =>
      simp only [acts_enter, acts_append, acts_leave, List.mem_append] at ha
      simp only [entered_enter, entered_append, entered_leave, List.mem_cons, List.mem_append]
      rcases ha with ha | ha
      · rcases ihinner ha with hown | hin
        · exact Or.inr (Or.inl (htasks hown))
        · exact Or.inr (Or.inr (Or.inl hin))
      · exact (ihrest ha).imp Or.inr fun hin => Or.inr (Or.inr hin)
  | interrupted _ _ _ _ ihinner =>
      rcases ihinner ha with hown | hin
      · exact Or.inr (List.mem_cons.mpr (Or.inl (htasks hown)))
      · exact Or.inr (List.mem_cons_of_mem _ hin)
  | unreadable => cases ha

/-- What stands side by side in a file is done one right after the other. -/
theorem acts_announced (h : Traversal s files visited as steps stop)
    (htasks : Announced (as.map Task.action)) : Announced ((acts steps).map Act.action) := by
  induction h with
  | done => trivial
  | @act visited a rest steps stop hrest ih =>
      obtain ⟨ha, hannounced⟩ := htasks
      refine ⟨fun path hpath => ?_, ih hannounced⟩
      obtain ⟨d, hd, hdef⟩ := ha path hpath
      cases hrest with
      | done => cases hd
      | act => exact ⟨d, hd, hdef⟩
      | pass | visit | interrupted | unreadable =>
          -- An inclusion defines nothing.
          cases hd
          obtain ⟨_, _, _, _, _, _, heq, _⟩ := hdef
          cases heq
  | pass _ _ ih => exact ih htasks.2
  | @visit _ _ _ file _ _ _ _ _ _ _ _ _ ihinner ihrest =>
      simp only [acts_enter, acts_append, acts_leave, List.map_append]
      exact (ihinner (s.tasks_announced file)).append (ihrest htasks.2)
  | @interrupted _ _ _ file _ _ _ _ _ _ _ ihinner => exact ihinner (s.tasks_announced file)
  | unreadable => trivial

/-- The acts that are done for a file are its own, in their order, however the
visits of other files lie between them.  Acts to be done at the start belong to
files whose visits have begun. -/
theorem acts_filter (h : Traversal s files visited as steps none)
    (home : ∀ a, .act a ∈ as → a.file ∈ visited) (file : String) :
    (acts steps).filter (·.file = file) =
      if file ∈ entered steps then s.acts file
      else (as.filterMap Task.act?).filter (·.file = file) := by
  generalize hnone : none = ended at h
  induction h with
  | done => simp
  | @act visited a rest steps _ hrest ih =>
      have ih := ih (fun b hb => home b (List.mem_cons_of_mem _ hb)) hnone
      by_cases hin : file ∈ entered steps
      · have hne : a.file ≠ file := by
          rintro rfl
          exact (hrest.fresh_of_mem_entered hin).2 (home a List.mem_cons_self)
        simpa [hin, hne] using ih
      · rw [if_neg hin] at ih
        simp [hin, Task.act?, List.filter_cons, ih]
  | pass _ _ ih => exact ih (fun b hb => home b (List.mem_cons_of_mem _ hb)) hnone
  | @visit visited _ _ entry rest inner steps _ _ hfresh _ hinner hrest ihinner ihrest =>
      have hacts : (s.tasks entry).filterMap Task.act? = s.acts entry := rfl
      have ihinner := ihinner (fun a ha => by
        have hfile : a.file = entry := s.file_of_mem_acts (List.mem_filterMap.mpr ⟨_, ha, rfl⟩)
        simp [hfile]) rfl
      have ihrest := ihrest (fun a ha => List.mem_append_left _
        (home a (List.mem_cons_of_mem _ ha))) hnone
      simp only [acts_enter, acts_append, acts_leave, List.filter_append, ihinner, ihrest,
        entered_enter, entered_append, entered_leave, List.mem_cons, List.mem_append, hacts,
        List.filterMap_cons, Task.act?]
      have hnone : file ∉ visited → (rest.filterMap Task.act?).filter (·.file = file) = [] := by
        intro hnot
        refine List.filter_eq_nil_iff.mpr fun a ha => ?_
        obtain ⟨task, htask, hact⟩ := List.mem_filterMap.mp ha
        cases task with
        | follow => cases hact
        | act b =>
            cases hact
            have hb := home a (List.mem_cons_of_mem _ htask)
            simpa using fun heq : a.file = file => hnot (heq ▸ hb)
      by_cases hentry : file = entry
      · -- The visit of the file itself: all of its acts lie inside.
        subst hentry
        have hin : file ∉ entered inner := fun hin => (hinner.fresh_of_mem_entered hin).2 (by simp)
        have hlater : file ∉ entered steps := fun hin =>
          (hrest.fresh_of_mem_entered hin).2 (by simp)
        have hself : (s.acts file).filter (·.file = file) = s.acts file :=
          List.filter_eq_self.mpr fun a ha => by simpa using s.file_of_mem_acts ha
        simp [hin, hlater, hself, hnone hfresh.2]
      · have hother : (s.acts entry).filter (·.file = file) = [] := by
          refine List.filter_eq_nil_iff.mpr fun a ha => ?_
          simpa [s.file_of_mem_acts ha] using Ne.symm hentry
        by_cases hin : file ∈ entered inner
        · have hlater : file ∉ entered steps := fun hlater =>
            (hrest.fresh_of_mem_entered hlater).2 (by simp [hin])
          have hnot : file ∉ visited := fun hv =>
            (hinner.fresh_of_mem_entered hin).2 (List.mem_append_left _ hv)
          simp [hin, hlater, hnone hnot]
        · simp [hin, hentry, hother]
  | interrupted => cases hnone
  | unreadable => cases hnone

end Traversal

end SymbolGraph
