import SymbolGraph.Proofs.Definitions
import SymbolGraph.Proofs.Tables

/-!
# `Proofs.FileOrder` — with declarations collected first, the order of the files is lost

Two runs on the same files, given in two orders, go through the same acts, in
another order: but the acts of one file stay in THEIR order, and a reference
belongs to the file whose act writes it.  If no two declarations disagree on the
type of a variable, the collecting pass leaves settled tables, the same ones for
both orders.  So each act writes the same in both runs, and what the store keeps
of it is the same, file by file.
-/

namespace SymbolGraph

open Step

/-- Lists that agree on every fibre of a map are permutations of each other. -/
theorem perm_of_filter_eq {α β : Type} [DecidableEq β] (f : α → β) {xs ys : List α}
    (h : ∀ b, xs.filter (f · = b) = ys.filter (f · = b)) : xs.Perm ys := by
  classical
  rw [List.perm_iff_count]
  intro a
  have hcount : ∀ zs : List α, (zs.filter (f · = f a)).count a = zs.count a := fun zs =>
    List.count_filter (by simp)
  rw [← hcount xs, ← hcount ys, h]

namespace Act

/-- What acts write for a file is what the acts of that file write. -/
theorem filter_references (t : Symbols) (file : String) : ∀ acts : List Act,
    ((acts.flatMap (·.emissions t)).filterMap Emission.reference?).filter (·.file = file) =
      ((acts.filter (·.file = file)).flatMap (·.emissions t)).filterMap Emission.reference?
  | [] => rfl
  | a :: rest => by
      have hfile : ∀ r ∈ (a.emissions t).filterMap Emission.reference?, r.file = a.file :=
        fun r hr => file_of_mem_references (Emission.mem_filterMap_reference?.mp hr)
      rw [List.flatMap_cons, List.filterMap_append, List.filter_append,
        filter_references t file rest]
      by_cases ha : a.file = file
      · have hall := List.filter_eq_self.mpr fun r hr =>
          (decide_eq_true ((hfile r hr).trans ha) : decide (r.file = file) = true)
        rw [hall, List.filter_cons_of_pos (by simpa using ha), List.flatMap_cons,
          List.filterMap_append]
      · have hnone : ((a.emissions t).filterMap Emission.reference?).filter (·.file = file) = [] :=
          List.filter_eq_nil_iff.mpr fun r hr => by simpa [hfile r hr] using ha
        rw [hnone, List.filter_cons_of_neg (by simpa using ha), List.nil_append]

end Act

namespace Session

variable {s : Session} {paths others : List String}

/-- What the tree of a file writes into cells of the tables, and where. -/
def writes (s : Session) (file : String) : List (Cell × Option String) :=
  match s.tree? file with
  | some tree => (tree.actions {}).filterMap Action.write?
  | none => []

/-- Any two writes to one cell, anywhere in the files, store the same type. -/
def Consistent (s : Session) (files : List String) : Prop :=
  ∀ f ∈ files, ∀ g ∈ files, ∀ x ∈ s.writes f, ∀ y ∈ s.writes g, x.1 = y.1 → x.2 = y.2

instance (s : Session) (files : List String) : Decidable (s.Consistent files) :=
  inferInstanceAs (Decidable (∀ f ∈ files, ∀ g ∈ files, ∀ x ∈ s.writes f, ∀ y ∈ s.writes g,
    x.1 = y.1 → x.2 = y.2))

theorem mem_writes {cell : Cell} {file : String} {a : Act} {type : Option String}
    (ha : a ∈ s.acts file) (h : a.action.typeAt? cell = some type) :
    (cell, type) ∈ s.writes file := by
  obtain ⟨tree, htree, haction⟩ := s.action_of_mem_acts ha
  rw [writes, htree]
  exact List.mem_filterMap.mpr ⟨a.action, haction, Action.typeAt?_eq_some.mp h⟩

theorem Tour.consistent {steps : List Step} (h : s.Tour paths steps)
    (hconsistent : s.Consistent (s.configured paths)) : Act.Consistent (Step.acts steps) := by
  intro cell a ha b hb x y hx hy
  obtain ⟨f, hf, ha⟩ := h.mem_acts.mp ha
  obtain ⟨g, hg, hb⟩ := h.mem_acts.mp hb
  exact hconsistent f hf g hg _ (mem_writes ha hx) _ (mem_writes hb hy) rfl

/-- Two tours of the same files go through the same acts. -/
theorem Tour.acts_perm {steps more : List Step} (h : s.Tour paths steps) (h' : s.Tour others more)
    (hperm : paths.Perm others) :
    (∀ file, (Step.acts steps).filter (·.file = file) = (Step.acts more).filter (·.file = file)) ∧
      (Step.acts steps).Perm (Step.acts more) := by
  have hfilter : ∀ file, (Step.acts steps).filter (·.file = file) =
      (Step.acts more).filter (·.file = file) := by
    intro file
    have hconfigured : file ∈ s.configured paths ↔ file ∈ s.configured others :=
      (hperm.map s.normalize).mem_iff
    rw [h.acts_filter, h'.acts_filter]
    simp only [hconfigured]
  exact ⟨hfilter, perm_of_filter_eq Act.file hfilter⟩

/-- With settled tables at the start, the acts write what they write on their own. -/
theorem Tour.emitAll {steps : List Step} (h : s.Tour paths steps) (htwo : s.twoPass = true)
    (hconsistent : s.Consistent (s.configured paths)) :
    Act.emitAll (s.known (Step.acts steps)) (Step.acts steps) =
      (Step.acts steps).flatMap (·.emissions (Act.declareAll (Step.acts steps) {})) := by
  rw [known, if_pos htwo]
  have hsettled := fun a => Act.settled_declareAll (a := a) (h.consistent hconsistent)
  exact Act.emitAll_of_settled hsettled (.refl _)

/-- In two passes over files whose declarations agree, the order of the files
makes no difference to the references that are stored, nor to the definitions that
are written. -/
theorem two_passes_forget_order {one : Run} {report : Report} (htwo : s.twoPass = true)
    (hconsistent : s.Consistent (s.configured paths)) (hperm : paths.Perm others)
    (hdone : s.process paths {} = .done one report) :
    ∃ two report', s.process others {} = .done two report' ∧
      one.store.references.Perm two.store.references ∧
      one.store.written.Perm two.store.written ∧
      ∀ path, (one.store.get? path).isSome = (two.store.get? path).isSome := by
  have hconfigured : ∀ file, file ∈ s.configured paths ↔ file ∈ s.configured others := fun _ =>
    (hperm.map s.normalize).mem_iff
  obtain ⟨steps, htour, hfinished⟩ := process_done hdone
  obtain ⟨two, report', hdone'⟩ := (s.process_done_iff others).mpr fun file hfile =>
    htour.readable ((hconfigured file).mpr hfile)
  obtain ⟨more, htour', hfinished'⟩ := process_done hdone'
  obtain ⟨hfilter, hacts⟩ := htour.acts_perm htour' hperm
  have hconsistent' : s.Consistent (s.configured others) := by
    intro f hf g hg
    exact hconsistent f ((hconfigured f).mpr hf) g ((hconfigured g).mpr hg)
  -- Both runs write from the same tables.
  have htables : (Act.declareAll (Step.acts more) {}).Alike (Act.declareAll (Step.acts steps) {}) :=
    Act.declareAll_alike (htour'.consistent hconsistent') (htour.consistent hconsistent)
      fun a => hacts.symm.mem_iff
  have hemit := htour.emitAll htwo hconsistent
  have hemit' := htour'.emitAll htwo hconsistent'
  simp only [Act.emissions_congr htables] at hemit'
  have hdefinitions : (Act.definitions (s.known (Step.acts steps)) (Step.acts steps)).Perm
      (Act.definitions (s.known (Step.acts more)) (Step.acts more)) := by
    rw [Act.definitions, Act.definitions, hemit, hemit']
    exact (hacts.flatMap_right _).filterMap _
  refine ⟨two, report', hdone', perm_of_filter_eq Reference.file fun file => ?_, ?_, fun path => ?_⟩
  · rw [hfinished.references, hfinished'.references, Reference.foldl_addTo_filter,
      Reference.foldl_addTo_filter, Act.references, Act.references, hemit, hemit',
      Act.filter_references, Act.filter_references, hfilter]
  · exact hfinished.written.trans (hdefinitions.trans hfinished'.written.symm)
  · rw [Bool.eq_iff_iff, hfinished.isSome_get?, hfinished'.isSome_get?]
    simp only [hdefinitions.mem_iff]

theorem two_passes_forget_order_mutual :
    mutualUnit.twoPass = true ∧
    mutualUnit.Consistent (mutualUnit.configured ["foo.h", "user.m"]) ∧
    ["foo.h", "user.m"].Perm ["user.m", "foo.h"] ∧
    ∃ one report, mutualUnit.process ["foo.h", "user.m"] {} = .done one report ∧
      ∃ two report', mutualUnit.process ["user.m", "foo.h"] {} = .done two report' ∧
        one.store.references.Perm two.store.references ∧
        one.store.written.Perm two.store.written ∧
        ∀ path, (one.store.get? path).isSome = (two.store.get? path).isSome := by
  have hconsistent : mutualUnit.Consistent (mutualUnit.configured ["foo.h", "user.m"]) := by decide
  have hperm : ["foo.h", "user.m"].Perm ["user.m", "foo.h"] := List.Perm.swap _ _ _
  obtain ⟨one, report, hdone⟩ := mutualUnit_done ["foo.h", "user.m"]
  exact ⟨rfl, hconsistent, hperm, one, report, hdone,
    two_passes_forget_order rfl hconsistent hperm hdone⟩

end Session

end SymbolGraph
