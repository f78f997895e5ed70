import SymbolGraph.Path

/-!
# `Key` — names of symbols inside a unit

A key is a path of segments with a block number:

    Foo                          a class, a global variable, a function
    Foo/count                    a member of a class
    Foo/initWithName:age:        a method
    Foo/initWithName:age:/name   a parameter
    Foo/run:/i$2                 a local of the second block of a method

The written path decides everything: two keys are the same symbol exactly
if their paths are equal, and keys are ordered as their paths are.
-/

namespace SymbolGraph

/-- The name of a symbol: segments, and the number of the block that declares
it, where a number that is not positive means no block. -/
structure Key where
  segments : List String
  block : Int := 0
  deriving Repr, DecidableEq, Inhabited

namespace Key

/-- The key of the segments that are given and not empty. -/
def of (segments : List (Option String)) : Key :=
  ⟨segments.filterMap fun s => s.filter (· ≠ ""), 0⟩

/-- The key of a name that stands on its own. -/
def global (name : String) : Key := of [some name]

/-- The key of a member of a class or protocol. -/
def member (owner name : String) : Key := ⟨[owner, name], 0⟩

/-- The key of something inside this symbol; it has no block. -/
def child (k : Key) (name : String) : Key := ⟨k.segments ++ [name], 0⟩

/-- The same segments in a block. -/
def inBlock (k : Key) (block : Int) : Key := ⟨k.segments, block⟩

/-- The last segment. -/
def name (k : Key) : String := k.segments.getLastD ""

/-- The written form, by which keys are compared. -/
def path (k : Key) : String :=
  let joined := "/".intercalate k.segments
  if 0 < k.block then joined ++ "$" ++ toString k.block else joined

/-- The key that a written form is read back into: the pieces between its slashes,
and no block. -/
def ofPath (written : String) : Key := ⟨(Path.splitSlash written.toList).map String.ofList, 0⟩

/-- The form shown in a tree: what a block declares stands below a dash. -/
def treePath (k : Key) : String :=
  if 0 < k.block ∧ k.segments ≠ [] then
    "/".intercalate (k.segments.dropLast ++ ["-", k.name])
  else "/".intercalate k.segments

/-- Two keys name the same symbol. -/
def same (a b : Key) : Bool := a.path == b.path

/-- The order of keys is the order of their paths by code point. -/
def before (a b : Key) : Bool := decide (a.path < b.path)

/-- Keys in order, those of one symbol in the order given. -/
def sort (keys : List Key) : List Key := keys.mergeSort fun a b => !before b a

/-- The symbols that occur, each once. -/
def distinct (keys : List Key) : List String := (keys.map path).eraseDups

end Key

end SymbolGraph
