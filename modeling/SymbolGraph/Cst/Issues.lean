import SymbolGraph.Cst.Basic
import SymbolGraph.Event
import SymbolGraph.Text.Basic

/-!
# `Cst.Issues` — where a source does not parse

A missing node is reported by its type, an error by the start of its text.
Errors lie below nodes that know of them (`Cst.hasError`), so the search keeps
a stack of nodes and never opens any other.  The issues come out sorted by
place, those of one place in document order.
-/

namespace SymbolGraph

/-- Why a source gives no tree.  This fails the one file: a parser never raises the
error of a file that cannot be read, which would end the run. -/
inductive ParseError where
  /-- An error node whose range has no text. -/
  | emptyError
  /-- The parser itself gave up. -/
  | raised (message : String)
  deriving Repr, DecidableEq

def ParseError.message : ParseError → String
  | .emptyError => "list index out of range"
  | .raised message => message

namespace Octets

/-- The line, from zero, and the column in bytes of an offset.  An offset
behind the end has the place of the end. -/
def place (src : Octets) (offset : Int) : Nat × Nat :=
  let before := src.slice 0 offset
  (before.count 10, (before.reverse.takeWhile (· ≠ 10)).length)

end Octets

/-- How much of an unexpected text is shown. -/
def shownLength : Nat := 40

/-- The start of the text of an error. -/
def Head.snippet (src : Octets) (h : Head) : Except ParseError String :=
  if h.start < h.stop then
    match Text.firstLine? (src.text h.start h.stop) with
    | some line => .ok (String.ofList (line.toList.take shownLength))
    | none => .error .emptyError
  else .ok ""

/-- The issue of a node itself. -/
def Head.issue? (src : Octets) (h : Head) : Except ParseError (Option Issue) :=
  let (line, column) := src.place h.start
  if h.missing then .ok (some ⟨line + 1, column, "missing '" ++ h.type ++ "'"⟩)
  else if h.isError then
    (h.snippet src).map fun s => some ⟨line + 1, column, "unexpected '" ++ s ++ "'"⟩
  else .ok none

namespace Cst

/-- The issues of the nodes on a stack, the first one opened first. -/
def issuesOfStack (src : Octets) (stack : List Cst) (found : List Issue) :
    Except ParseError (List Issue) :=
  match stack with
  | [] => .ok found.reverse
  | node h children :: rest =>
      match h.issue? src with
      | .error e => .error e
      | .ok issue =>
          let found := issue.toList ++ found
          if (node h children).hasError then issuesOfStack src (children ++ rest) found
          else issuesOfStack src rest found
termination_by sizeOfAll stack
decreasing_by
  all_goals
    simp only [sizeOfAll, size, sizeOfAll_append]
    omega

/-- The first issue stands before the second, or at the same place. -/
def Issue.notAfter (a b : Issue) : Bool :=
  a.line < b.line || (a.line == b.line && a.column ≤ b.column)

/-- All issues of a tree, in the order of their places. -/
def issues (src : Octets) (root : Cst) : Except ParseError (List Issue) :=
  (issuesOfStack src [root] []).map fun found => found.mergeSort Issue.notAfter

end Cst

end SymbolGraph
