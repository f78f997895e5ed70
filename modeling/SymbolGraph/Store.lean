import SymbolGraph.Event
import SymbolGraph.Json.Writer

/-!
# `Store` — the graph that is being collected

Definitions stand in the order in which their paths were first written, each
with the value written last; what was overwritten is kept as a collision.
References stand in the order in which they were first written, each once.
-/

namespace SymbolGraph

structure Store where
  definitions : List Definition := []
  references : List Reference := []
  collisions : List Collision := []
  flushed : Bool := false
  deriving Repr, DecidableEq, Inhabited

namespace Store

/-- The definition under a path. -/
def get? (s : Store) (path : String) : Option Definition :=
  s.definitions.find? (·.key.path == path)

/-- The definition that a written path asks for: the path is read as a key first. -/
def lookup (s : Store) (written : String) : Option Definition := s.get? (Key.ofPath written).path

/-- Replaces the definition under the path of the given one. -/
def replace (d : Definition) : List Definition → List Definition
  | [] => []
  | e :: rest => if e.key.same d.key then d :: rest else e :: replace d rest

/-- Writes a definition; the one that was under its path becomes a collision. -/
def define (s : Store) (d : Definition) : Store :=
  match s.get? d.key.path with
  | none => { s with definitions := s.definitions ++ [d] }
  | some previous =>
      { s with
        definitions := replace d s.definitions
        collisions := s.collisions ++ [⟨previous, d⟩] }

/-- What is logged when a definition is written. -/
def defineEvents (s : Store) (d : Definition) : List Event :=
  (s.get? d.key.path).toList.map fun previous => .collision ⟨previous, d⟩

/-- Writes a reference, unless it is there already. -/
def refer (s : Store) (r : Reference) : Store :=
  if s.references.any (·.same r) then s
  else { s with references := s.references ++ [r] }

/-- Marks the store as complete. -/
def flush (s : Store) : Store := { s with flushed := true }

/-- Completion is logged once. -/
def flushEvents (s : Store) : List Event :=
  if s.flushed then [] else [.flushed s.definitions.length s.references.length]

/-- The references to a path, in order. -/
def refsTo (s : Store) (path : String) : List Reference :=
  s.references.filter (·.key.path == path)

def toJson (s : Store) : Json :=
  .obj [("Defs", .arr (s.definitions.map Definition.toJson)),
    ("Refs", .arr (s.references.map Reference.toJson))]

end Store

end SymbolGraph
