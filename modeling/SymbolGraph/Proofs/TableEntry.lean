import SymbolGraph.Action
import SymbolGraph.Proofs.Key

/-!
# `Proofs.TableEntry` — what a step enters into the tables, and what stands for it in the graph

The tables and the graph are written by different steps.  An ENTRY is a place of the
tables that a step may fill, and another step GROUNDS it by what it writes to the graph,
whatever the tables say:

    a global variable, a type, a function   a reference under its name or path
    a declared method                       a definition under its path
    a member of a class                     a definition under class and name
    the table of a class, and its `self`    the registration of the class
-/

namespace SymbolGraph

/-- A place of the tables. -/
inductive TableEntry where
  | global (name : String)
  | function (path : String)
  | type (name : String)
  | method (path : String)
  | member (className name : String)
  | table (className : String)
  deriving Repr, DecidableEq

namespace Action

/-- The places that a step fills. -/
def entries : Action → List TableEntry
  | .setGlobal name _ => [.global name]
  | .setMember className name _ => [.table className, .member className name]
  | .registerClass name => [.table name, .type name, .member name "self"]
  | .addType name => [.type name]
  | .addFunction path => [.function path]
  | .declareMethod path => [.function path, .method path]
  | _ => []

/-- The step writes a definition under the path, whatever the tables say. -/
def Defines (path : String) (a : Action) : Prop :=
  ∃ ident owner kind key name modifiers,
    a = .define ident owner kind key name modifiers ∧ key.path = path

/-- The step writes a reference under the path, whatever the tables say. -/
def Refers (path : String) : Action → Prop
  | .define _ _ _ key _ _ | .refer _ key | .implement _ _ key _ => key.path = path
  | _ => False

theorem refers_referName (e : Excerpt) : (referName e).Refers e.text := Key.path_global e.text

theorem refers_defineName (ident owner : Excerpt) (kind : Kind) :
    (defineName ident owner kind (.global ident.text)).Refers ident.text :=
  Key.path_global ident.text

end Action

/-- The step stands for the entry. -/
def TableEntry.GroundedBy (b : Action) : TableEntry → Prop
  | .global name | .function name | .type name => b.Refers name
  | .method path => b.Defines path
  | .member className name =>
      b.Defines (Key.member className name).path ∨ name = "self" ∧ b = .registerClass className
  | .table className => b = .registerClass className

end SymbolGraph
