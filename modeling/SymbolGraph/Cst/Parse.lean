import SymbolGraph.Cst.Issues
import SymbolGraph.Cst.Reading.Construct

/-!
# `Cst.Parse` — a source's tree and its issues

Any concrete syntax tree gives a tree: what does not parse is reported and
read as far as it goes.
-/

namespace SymbolGraph

/-- The tree of a source, and where the source does not parse. -/
structure Parsed where
  tree : Node
  issues : List Issue

namespace Parsed

/-- The number of items at the top of a tree. -/
def itemCount (p : Parsed) : Nat :=
  match p.tree with
  | .unit _ items => items.length
  | _ => 0

end Parsed

namespace Cst

mutual

/-- The reading of a tree, from the leaves up. -/
def reading (src : Octets) : Cst → Reading
  | node head children => Reading.make src head (readings src children)

def readings (src : Octets) : List Cst → List Reading
  | [] => []
  | c :: rest => reading src c :: readings src rest

end

theorem readings_eq_map (src : Octets) (children : List Cst) :
    readings src children = children.map (reading src) := by
  induction children with
  | nil => rfl
  | cons c rest ih => rw [readings, ih, List.map_cons]

@[simp] theorem head_reading (src : Octets) (c : Cst) : (c.reading src).head = c.head := by
  cases c
  rfl

@[simp] theorem excerpt_reading (src : Octets) (c : Cst) :
    (c.reading src).excerpt = c.head.excerpt src := by
  cases c
  rfl

@[simp] theorem children_reading (src : Octets) (c : Cst) :
    (c.reading src).children = c.children.map (reading src) := by
  cases c
  exact readings_eq_map src _

/-- The tree of a source: whatever the root is, it is the whole unit. -/
def tree (src : Octets) (root : Cst) : Node :=
  .unit (root.head.excerpt src) (Reading.nodes (readings src root.children))

/-- The tree of a source and its issues. -/
def parse (src : Octets) (root : Cst) : Except ParseError Parsed :=
  (root.issues src).map fun issues => ⟨root.tree src, issues⟩

end Cst

end SymbolGraph
