import SymbolGraph.Proofs.Restore

/-!
# `Proofs.Reached` — the states that a run can come to

A run is processed in steps: a list of files, or one file, and again.  A step may halt,
and the next one starts from the state that was left; between two steps the files may
have changed, so that trees kept from before need not be what is on the disk.

Only acts write to the store and to the tables.  What every act keeps true of them, and
completion does, is true in every state that is reached (`Session.Reached.keeps`).
-/

namespace SymbolGraph

/-- Whatever is true of the store and the tables stays so when an act is performed, and
when the store is completed. -/
structure Run.Kept (P : Store → Symbols → Prop) : Prop where
  act (pass : Pass) (a : Act) {store : Store} {t : Symbols} : P store t →
    P (store.recordAll (pass.only (a.emissions t))) (a.action.declared t)
  flush {store : Store} {t : Symbols} : P store t → P store.flush t

namespace Run.Kept

variable {P : Store → Symbols → Prop} {s : Session} {pass : Pass} {run : Run}

theorem stepwise (h : Kept P) :
    Stepwise fun before after => P before.store before.symbols → P after.store after.symbols where
  refl _ := id
  trans hab hbc := hbc ∘ hab
  enter _ _ _ := id
  load s pass file run hP := by
    obtain ⟨log, parses, cache, hload⟩ := s.load_frame pass file run
    rw [hload]
    exact hP
  note pass events run hP := by
    obtain ⟨log, hnoted⟩ := Session.noted_eq pass events run
    rw [hnoted]
    exact hP
  act pass a run hP := by
    obtain ⟨log, hact⟩ := run.act_frame pass a
    rw [hact]
    exact h.act pass a hP
  conclude pass run result hP := by
    cases pass <;> exact hP

/-- The property, of the state in which a step ends. -/
def EndsIn {α : Type} (P : Store → Symbols → Prop) (outcome : Outcome α) : Prop :=
  P outcome.run.store outcome.run.symbols

theorem runPass (h : Kept P) (paths : List String) (hP : P run.store run.symbols) :
    EndsIn P (s.runPass pass paths run) :=
  h.stepwise.runPass paths run hP

theorem emit (h : Kept P) (ordered : List String) (hP : P run.store run.symbols) :
    EndsIn P (s.emit ordered run) := by
  have hall : EndsIn P (s.runPass .emitting ordered { run with report := [] }) :=
    h.runPass ordered hP
  unfold Session.emit
  cases houtcome : s.runPass .emitting ordered { run with report := [] } with
  | done mid value =>
      rw [houtcome] at hall
      exact h.flush hall
  | halted mid e =>
      rw [houtcome] at hall
      exact hall

theorem process (h : Kept P) (paths : List String) (hP : P run.store run.symbols) :
    EndsIn P (s.process paths run) := by
  unfold Session.process
  dsimp only
  split
  · have hall : EndsIn P (s.runPass .collecting (paths.map s.normalize)
        (Run.logAll { run with files := paths.map s.normalize }
          [.collecting (paths.map s.normalize).length])) := h.runPass _ hP
    split
    · next mid e houtcome =>
      rw [houtcome] at hall
      exact hall
    · next mid value houtcome =>
      rw [houtcome] at hall
      exact h.emit _ hall
  · exact h.emit _ hP

end Run.Kept

namespace Session

/-- The states that a run can come to.  Each step finds the files as they are by then. -/
inductive Reached (s : Session) : Run → Prop
  | fresh : Reached s {}
  | process {run : Run} (sources : Sources) (paths : List String) : Reached s run →
      Reached s (({ s with sources } : Session).process paths run).run
  | processPath {run : Run} (sources : Sources) (origin : Option String) (path : String) :
      Reached s run →
      Reached s (({ s with sources } : Session).processPath origin path run).run

theorem Reached.keeps {s : Session} {run : Run} {P : Store → Symbols → Prop} (h : s.Reached run)
    (hkept : Run.Kept P) (hfresh : P {} {}) : P run.store run.symbols := by
  induction h with
  | fresh => exact hfresh
  | process sources paths _ ih => exact hkept.process paths ih
  | processPath sources origin path _ ih => exact hkept.stepwise.processFile origin path _ ih

/-- Between two steps a run emits, also where a step has halted while declarations were
collected. -/
theorem Reached.pass {s : Session} {run : Run} (h : s.Reached run) : run.pass = .emitting := by
  induction h with
  | fresh => rfl
  | process sources paths _ ih => exact (pass_process paths _).trans ih
  | processPath sources origin path _ ih => exact (pass_processFile origin path _).trans ih

end Session

end SymbolGraph
