import SymbolGraph.Text.Utf8
import SymbolGraph.Tree.Basic

/-!
# `Cst.Basic` — concrete syntax trees

A concrete syntax tree covers every byte range the grammar recognised:
keywords and punctuation are ANONYMOUS nodes, everything else is named.  A
node may carry the name of the field it fills in its parent.  Nothing is
assumed about which types and fields occur together.
-/

namespace SymbolGraph

/-- The bytes of a source. -/
abbrev Octets := Array UInt8

namespace Octets

/-- The byte that an offset stands for; an offset below zero counts from the
end. -/
def index (src : Octets) (offset : Int) : Nat :=
  (if offset < 0 then src.size + offset else offset).toNat

/-- The bytes from `start` up to, and without, `stop`; those that there are. -/
def slice (src : Octets) (start stop : Int) : List UInt8 :=
  (src.extract (src.index start) (src.index stop)).toList

/-- The text of a range, ill-formed parts replaced. -/
def text (src : Octets) (start stop : Int) : String := Text.Utf8.decode (src.slice start stop)

end Octets

/-- A node of a concrete syntax tree without its children. -/
structure Head where
  type : String
  /-- The first byte. -/
  start : Int
  /-- The byte after the last. -/
  stop : Int
  named : Bool
  /-- The grammar wanted the node and the source does not have it. -/
  missing : Bool := false
  /-- The field that the node fills in its parent. -/
  field : Option String := none
  deriving Repr, DecidableEq, Inhabited

namespace Head

/-- A part of the source that the grammar does not recognise. -/
def isError (h : Head) : Bool := h.type == "ERROR"

/-- The two heads have the same range and type. -/
def coincides (a b : Head) : Bool := a.start == b.start && a.stop == b.stop && a.type == b.type

/-- The text and span of a node; an empty node has its start as its end. -/
def excerpt (src : Octets) (h : Head) : Excerpt :=
  ⟨src.text h.start h.stop, h.start, max h.start (h.stop - 1)⟩

end Head

/-- A concrete syntax tree. -/
inductive Cst where
  | node (head : Head) (children : List Cst)
  deriving Repr, Inhabited

namespace Cst

def head : Cst → Head
  | node h _ => h

def children : Cst → List Cst
  | node _ cs => cs

mutual

/-- The number of nodes. -/
def size : Cst → Nat
  | node _ children => 1 + sizeOfAll children

def sizeOfAll : List Cst → Nat
  | [] => 0
  | c :: rest => size c + sizeOfAll rest

end

theorem sizeOfAll_append (a b : List Cst) : sizeOfAll (a ++ b) = sizeOfAll a + sizeOfAll b := by
  induction a with
  | nil => simp [sizeOfAll]
  | cons c a ih => simp [sizeOfAll, ih, Nat.add_assoc]

mutual

/-- The node, or some node in it, is missing or an error. -/
def hasError : Cst → Bool
  | node h children => h.isError || h.missing || anyHasError children

def anyHasError : List Cst → Bool
  | [] => false
  | c :: rest => hasError c || anyHasError rest

end

end Cst

end SymbolGraph
