import SymbolGraph.Proofs.Act

/-!
# `Proofs.Tables` — the tables as cells, and tables that are settled

Of the tables a step reads two things: the CELLS, which hold the type of a global
variable or of a member of a class, and whether a method was announced.  Tables
that agree on these are `Alike`: no step can tell them apart.

Where all acts that write one cell write the same type into it, the tables behind
all of them are SETTLED: each act finds there what it would write itself.  From
then on the order of the acts is lost on what they write, as `emitAll_of_settled`
says: each of them writes what it would write first.
-/

namespace SymbolGraph

/-- A place of the tables that holds a type. -/
inductive Cell where
  | global (name : String)
  | member (className name : String)
  deriving Repr, DecidableEq

/-- What a cell of the tables holds, if anything was written there. -/
def Symbols.at? (t : Symbols) : Cell → Option (Option String)
  | .global name => t.globals.get? name
  | .member className name => (t.membersOf className).get? name

/-- The cell that a step writes, and the type that it writes there. -/
def Action.write? : Action → Option (Cell × Option String)
  | .setGlobal name type => some (.global name, type)
  | .setMember className name type => some (.member className name, type)
  | .registerClass name => some (.member name "self", some name)
  | _ => none

theorem Symbols.at?_setMember (t : Symbols) (className name : String) (type : Option String)
    (cell : Cell) : (t.setMember className name type).at? cell =
      if .member className name = cell then some type else t.at? cell := by
  cases cell with
  | global other => rw [if_neg nofun]; rfl
  | member otherClass other =>
      simp only [at?, membersOf, setMember, Dict.get?_set, Cell.member.injEq]
      by_cases hclass : className = otherClass
      · subst hclass
        simp only [if_true, Option.getD_some, Dict.get?_set, true_and]
      · simp [hclass]

/-- The type that a step writes into a cell. -/
def Action.typeAt? (cell : Cell) (a : Action) : Option (Option String) :=
  match a.write? with
  | some (written, type) => if written = cell then some type else none
  | none => none

theorem Action.typeAt?_eq_some {cell : Cell} {a : Action} {type : Option String} :
    a.typeAt? cell = some type ↔ a.write? = some (cell, type) := by
  unfold typeAt?
  cases hwrite : a.write? with
  | none => simp
  | some written =>
      obtain ⟨target, stored⟩ := written
      by_cases h : target = cell
      · simp [h]
      · simp [h]

/-- A step changes no cell but the one it writes. -/
theorem at?_declared (a : Action) (t : Symbols) (cell : Cell) :
    (a.declared t).at? cell = (a.typeAt? cell).or (t.at? cell) := by
  have hor : ∀ (written : Cell) (type : Option String),
      (if written = cell then some type else none).or (t.at? cell) =
        if written = cell then some type else t.at? cell := by
    intro written type
    split <;> rfl
  unfold Action.declared perform Action.typeAt?
  cases a with
  | setGlobal name type =>
      refine Eq.trans ?_ (hor (.global name) type).symm
      cases cell with
      | global other => simp [Symbols.at?, Symbols.setGlobal, Dict.get?_set]
      | member => simp [Symbols.at?, Symbols.setGlobal, Symbols.membersOf]
  | setMember className name type =>
      exact (t.at?_setMember className name type cell).trans (hor _ _).symm
  | registerClass name =>
      exact ((t.addType name).at?_setMember name "self" (some name) cell).trans (hor _ _).symm
  | implement => dsimp only; split <;> rfl
  | _ => cases cell <;> rfl

namespace Symbols

/-- No step tells the two tables apart. -/
structure Alike (t u : Symbols) : Prop where
  cells : ∀ cell, t.at? cell = u.at? cell
  methods : ∀ path, path ∈ t.declaredMethods ↔ path ∈ u.declaredMethods

variable {t u : Symbols}

theorem Alike.refl (t : Symbols) : t.Alike t := ⟨fun _ => rfl, fun _ => Iff.rfl⟩

theorem Alike.member? (h : t.Alike u) (className : Option String) (name : String) :
    t.member? className name = u.member? className name := by
  cases className with
  | none => rfl
  | some c => exact h.cells (.member c name)

theorem Alike.globals (h : t.Alike u) (name : String) : t.globals.get? name = u.globals.get? name :=
  h.cells (.global name)

end Symbols

namespace Walker

variable {t u : Symbols}

theorem typeOf_congr (h : t.Alike u) (w : Walker) (c : Context) (name : String) :
    w.typeOf t c name = w.typeOf u c name := by
  rw [typeOf, typeOf, h.member?, h.globals]

theorem resolve_congr (h : t.Alike u) (w : Walker) (c : Context) (name : String) :
    w.resolve t c name = w.resolve u c name := by
  rw [resolve, resolve, h.member?]

theorem classOf_congr (h : t.Alike u) (w : Walker) (c : Context) : ∀ receivers : List String,
    w.classOf t c receivers = w.classOf u c receivers
  | [] => rfl
  | receiver :: inner => by
      rw [classOf, classOf, typeOf_congr h, classOf_congr h w c inner]

end Walker

namespace Act

variable {t u : Symbols}

theorem emissions_congr (h : t.Alike u) (a : Act) : a.emissions t = a.emissions u := by
  obtain ⟨file, w, action⟩ := a
  unfold emissions perform
  cases action with
  | implement anchor owner key name =>
      dsimp only
      by_cases hmem : key.path ∈ t.declaredMethods
      · rw [if_pos hmem, if_pos ((h.methods _).mp hmem)]
      · rw [if_neg hmem, if_neg fun hu => hmem ((h.methods _).mpr hu)]
  | read c occurrence => dsimp only; rw [Walker.resolve_congr h]
  | access c receiver member => dsimp only; rw [Walker.typeOf_congr h]
  | send c receivers anchor selector => dsimp only; rw [Walker.classOf_congr h]
  | _ => rfl

/-! ## Settled tables -/

/-- The tables hold already what the act would write. -/
structure Settled (a : Act) (t : Symbols) : Prop where
  cell : ∀ cell type, a.action.typeAt? cell = some type → t.at? cell = some type
  method : ∀ path, a.action = .declareMethod path → path ∈ t.declaredMethods

/-- On settled tables an act makes no difference. -/
theorem Settled.declared_alike {a : Act} (h : a.Settled t) (hu : u.Alike t) :
    (a.action.declared u).Alike t where
  cells := by
    intro cell
    rw [at?_declared, hu.cells]
    cases htype : a.action.typeAt? cell with
    | none => rfl
    | some type => rw [h.cell cell type htype]; rfl
  methods := by
    intro path
    rw [mem_declared, hu.methods]
    exact or_iff_right_of_imp (h.method path)

theorem emitAll_of_settled : ∀ {acts : List Act} {u : Symbols}, (∀ a ∈ acts, a.Settled t) →
    u.Alike t → emitAll u acts = acts.flatMap (·.emissions t)
  | [], _, _, _ => rfl
  | a :: rest, u, hsettled, hu => by
      have hhead := (hsettled a List.mem_cons_self).declared_alike hu
      rw [emitAll, List.flatMap_cons, emissions_congr hu,
        emitAll_of_settled (fun b hb => hsettled b (List.mem_cons_of_mem _ hb)) hhead]

/-- What stands in a cell is the last type that was written there. -/
theorem at?_declareAll (cell : Cell) : ∀ (acts : List Act) (t : Symbols),
    (declareAll acts t).at? cell =
      (acts.filterMap (·.action.typeAt? cell)).getLast?.or (t.at? cell)
  | [], t => rfl
  | a :: rest, t => by
      have ih := at?_declareAll cell rest (a.action.declared t)
      rw [declareAll, List.foldl_cons, ← declareAll, ih, at?_declared, List.filterMap_cons]
      cases a.action.typeAt? cell with
      | none => rfl
      | some type =>
          rw [← Option.or_assoc, List.getLast?_cons]
          cases (rest.filterMap (·.action.typeAt? cell)).getLast? <;> rfl

/-- Acts that write into one cell write one type there. -/
def Consistent (acts : List Act) : Prop :=
  ∀ cell, ∀ a ∈ acts, ∀ b ∈ acts, ∀ x y, a.action.typeAt? cell = some x →
    b.action.typeAt? cell = some y → x = y

theorem at?_declareAll_iff {acts : List Act} (h : Consistent acts) {cell : Cell}
    {type : Option String} : (declareAll acts {}).at? cell = some type ↔
      ∃ a ∈ acts, a.action.typeAt? cell = some type := by
  have hempty : ({} : Symbols).at? cell = none := by cases cell <;> rfl
  rw [at?_declareAll, hempty, Option.or_none]
  constructor
  · intro hlast
    exact List.mem_filterMap.mp (List.mem_of_getLast? hlast)
  · rintro ⟨a, ha, htype⟩
    have hmem : type ∈ acts.filterMap (·.action.typeAt? cell) :=
      List.mem_filterMap.mpr ⟨a, ha, htype⟩
    obtain ⟨last, hlast⟩ := Option.isSome_iff_exists.mp
      (List.getLast?_isSome.mpr (List.ne_nil_of_mem hmem))
    obtain ⟨b, hb, hother⟩ := List.mem_filterMap.mp (List.mem_of_getLast? hlast)
    rw [hlast, h cell b hb a ha last type hother htype]

theorem settled_declareAll {acts : List Act} (h : Consistent acts) {a : Act} (ha : a ∈ acts) :
    a.Settled (declareAll acts {}) where
  cell := fun _ _ htype => (at?_declareAll_iff h).mpr ⟨a, ha, htype⟩
  method := fun _ haction => mem_declareAll.mpr (Or.inl ⟨a, ha, haction⟩)

/-- The order of the acts is lost on the tables behind them. -/
theorem declareAll_alike {acts others : List Act} (h : Consistent acts) (h' : Consistent others)
    (hmem : ∀ a, a ∈ acts ↔ a ∈ others) : (declareAll acts {}).Alike (declareAll others {}) where
  cells := by
    intro cell
    refine Option.ext fun type => ?_
    rw [at?_declareAll_iff h, at?_declareAll_iff h']
    simp only [hmem]
  methods := by
    intro path
    rw [mem_declareAll, mem_declareAll]
    simp only [hmem]

end Act

end SymbolGraph
