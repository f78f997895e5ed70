/-!
# `Path` — paths as segments

A path is where it starts and a list of segments.  Writing it out and reading
it back forgets empty segments and `.`; resolving removes `..` together with
the segment before it, which is right as long as no link is involved.

`normalize` gives each location ONE spelling, relative to a root: first
segments `..`, as many as needed, then segments that are neither empty nor
`.` nor `..`; and `.` for the root itself.
-/

namespace SymbolGraph

/-- Where a path starts: at the place it is used, at the root of the file
system, or at the root written with two slashes. -/
inductive Anchor where
  | here
  | root
  | doubleRoot
  deriving Repr, DecidableEq, Inhabited

structure Path where
  anchor : Anchor
  segments : List String
  deriving Repr, DecidableEq, Inhabited

namespace Path

/-- The pieces between the slashes of a text, empty ones included. -/
def splitSlash : List Char → List (List Char)
  | [] => [[]]
  | c :: rest =>
      if c = '/' then [] :: splitSlash rest
      else match splitSlash rest with
        | [] => [[c]]
        | piece :: pieces => (c :: piece) :: pieces

/-- The segments of a text: its pieces without the empty ones and the dots. -/
def segmentsOf (text : String) : List String :=
  ((splitSlash text.toList).map String.ofList).filter fun s => s ≠ "" ∧ s ≠ "."

/-- One slash is the root, and so are three or more; two are a root of their own. -/
def anchorOf : List Char → Anchor
  | '/' :: '/' :: '/' :: _ => .root
  | '/' :: '/' :: _ => .doubleRoot
  | '/' :: _ => .root
  | _ => .here

/-- Reads a path. -/
def ofText (text : String) : Path := ⟨anchorOf text.toList, segmentsOf text⟩

def isAbsolute (p : Path) : Bool := p.anchor != .here

/-- Writes a path; one without segments is its starting point. -/
def text (p : Path) : String :=
  let joined := "/".intercalate p.segments
  match p.anchor with
  | .here => if p.segments.isEmpty then "." else joined
  | .root => "/" ++ joined
  | .doubleRoot => "//" ++ joined

/-- Why a text cannot be looked up as a path. -/
inductive Fault where
  | nul
  deriving Repr, DecidableEq

def Fault.message : Fault → String
  | .nul => "embedded null byte"

/-- Reads a path that is to be looked up, which has no NUL in it. -/
def read (text : String) : Except Fault Path :=
  if text.toList.contains (Char.ofNat 0) then .error .nul else .ok (ofText text)

/-- A path seen from another one. -/
def join (base p : Path) : Path :=
  if p.isAbsolute then p else ⟨base.anchor, base.segments ++ p.segments⟩

/-- The path without its last segment. -/
def parent (p : Path) : Path := ⟨p.anchor, p.segments.dropLast⟩

/-- One segment onto the segments before it, the latest first: `..` takes the
one before it away.  Above a root there is nothing; above a relative path `..`
stays. -/
def pushSegment (absolute : Bool) (before : List String) (segment : String) : List String :=
  if segment = ".." then
    match before with
    | [] => if absolute then [] else [".."]
    | top :: rest => if top = ".." then ".." :: top :: rest else rest
  else segment :: before

/-- Segments without `..` inside. -/
def resolveSegments (absolute : Bool) (segments : List String) : List String :=
  (segments.foldl (pushSegment absolute) []).reverse

/-- The path without `..` inside. -/
def resolve (p : Path) : Path := ⟨p.anchor, resolveSegments p.isAbsolute p.segments⟩

/-- The way from one absolute path to another: up to what they share, then down. -/
def wayTo : (start target : List String) → List String
  | s :: start, t :: target =>
      if s = t then wayTo start target
      else List.replicate (start.length + 1) ".." ++ t :: target
  | start, target => List.replicate start.length ".." ++ target

/-- The segments of a path seen from an absolute root. -/
def relativeSegments (root p : Path) : List String :=
  if p.isAbsolute then wayTo root.resolve.segments p.resolve.segments else p.resolve.segments

/-- The one spelling of a path's location, relative to a root.  The root is the
absolute one; nothing here joins a relative root to a working directory. -/
def normalize (root p : Path) : String := (Path.mk .here (relativeSegments root p)).text

/-- An included path is one seen from the directory of the including file. -/
def included (includedFrom : Option String) (path : String) : Path :=
  match includedFrom with
  | none => ofText path
  | some file => (ofText file).parent.join (ofText path)

end Path

end SymbolGraph
