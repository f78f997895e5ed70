import SymbolGraph.Cst.Basic
import SymbolGraph.Path
import SymbolGraph.Text.Quoted

/-!
# `FileSystem` — files, directories and links as data

A file system maps absolute paths, as lists of segments, to entries.  Looking
a path up goes segment by segment and follows links on the way; no more
than `maxLinks` of them, so that links which lead in a circle are an error
and not a loop.
-/

namespace SymbolGraph

/-- What a path holds.  A file may be longer than the bytes given, and then goes
on with zeros, or shorter. -/
inductive Entry where
  | file (bytes : Octets) (size : Nat)
  | directory
  | link (target : String)

/-- Why a path cannot be used. -/
inductive PathError where
  | notFound
  | notDirectory
  | isDirectory
  | nameTooLong
  | tooManyLinks
  deriving Repr, DecidableEq

namespace PathError

def number : PathError → Nat
  | notFound => 2
  | notDirectory => 20
  | isDirectory => 21
  | nameTooLong => 36
  | tooManyLinks => 40

def text : PathError → String
  | notFound => "No such file or directory"
  | notDirectory => "Not a directory"
  | isDirectory => "Is a directory"
  | nameTooLong => "File name too long"
  | tooManyLinks => "Too many levels of symbolic links"

/-- The message for a path. -/
def message (e : PathError) (path : String) : String :=
  "[Errno " ++ toString e.number ++ "] " ++ e.text ++ ": " ++ Text.Quoted.encode path

end PathError

/-- The entries of a file system; the root is there without being listed. -/
structure FileSystem where
  entries : List (List String × Entry) := []

namespace FileSystem

/-- What lies at a path, links not followed. -/
def entry? (fs : FileSystem) (path : List String) : Option Entry :=
  if path.isEmpty then some .directory
  else (fs.entries.find? (·.1 == path)).map (·.2)

/-- The directories above a path, outermost first. -/
def ancestors (path : List String) : List (List String) :=
  (List.range path.length).map path.take

/-- Adds a directory unless something lies there. -/
def addDirectory (fs : FileSystem) (path : List String) : FileSystem :=
  match fs.entry? path with
  | some _ => fs
  | none => ⟨fs.entries ++ [(path, .directory)]⟩

/-- Puts an entry at a path, in place of one that lies there, and makes the
directories above it. -/
def insert (fs : FileSystem) (path : List String) (e : Entry) : FileSystem :=
  let fs := (ancestors path).foldl addDirectory fs
  ⟨fs.entries.filter (·.1 != path) ++ [(path, e)]⟩

/-- The names in a directory, in order. -/
def names (fs : FileSystem) (directory : List String) : List String :=
  let inside := fs.entries.filterMap fun (path, _) =>
    match path.getLast? with
    | some name => if path.dropLast == directory then some name else none
    | none => none
  inside.mergeSort fun a b => a ≤ b

/-- How many links a look-up follows at most. -/
def maxLinks : Nat := 40

/-- How many bytes the name of an entry may have. -/
def maxName : Nat := 255

/-- Follows a path from a directory to where it leads, links followed.  Only a
directory has anything below it, `.` and `..` included. -/
def follow (fs : FileSystem) (links : Nat) (here : List String) (rest : List String) :
    Except PathError (List String) :=
  match rest with
  | [] => .ok here
  | segment :: rest =>
      if segment = "" ∨ segment = "." then follow fs links here rest
      else if segment = ".." then follow fs links here.dropLast rest
      else if maxName < segment.utf8ByteSize then .error .nameTooLong
      else match fs.entry? (here ++ [segment]) with
        | none => .error .notFound
        | some (.file ..) => if rest.isEmpty then .ok (here ++ [segment]) else .error .notDirectory
        | some .directory => follow fs links (here ++ [segment]) rest
        | some (.link target) =>
            match links with
            | 0 => .error .tooManyLinks
            | links + 1 =>
                let start := if Path.anchorOf target.toList = .here then here else []
                follow fs links start
                  ((Path.splitSlash target.toList).map String.ofList ++ rest)
termination_by (links, rest.length)

/-- A path with this many bytes is too long to be looked up. -/
def maxPath : Nat := 4096

/-- Where an absolute path leads. -/
def locate (fs : FileSystem) (path : Path) : Except PathError (List String) :=
  if maxPath ≤ path.text.utf8ByteSize then .error .nameTooLong
  else fs.follow maxLinks [] path.segments

/-- What an absolute path leads to. -/
def get (fs : FileSystem) (path : Path) : Except PathError Entry :=
  match fs.locate path with
  | .error e => .error e
  | .ok place =>
      match fs.entry? place with
      | some e => .ok e
      | none => .error .notFound

/-- Whether a path leads anywhere.  Of a path that is too long nothing can be
said. -/
def exists? (fs : FileSystem) (path : Path) : Except PathError Bool :=
  match fs.get path with
  | .ok _ => .ok true
  | .error .nameTooLong => .error .nameTooLong
  | .error _ => .ok false

def isDirectory (fs : FileSystem) (path : Path) : Bool :=
  match fs.get path with
  | .ok .directory => true
  | _ => false

/-- Where a new entry at an absolute path comes to lie.  Links among the
directories above it are followed; directories that are not there yet stay as
they are written. -/
def destination (fs : FileSystem) (path : Path) : List String :=
  let directory := path.segments.dropLast.foldl (fun here segment =>
    if segment = ".." then here.dropLast
    else (fs.locate ⟨.root, here ++ [segment]⟩).toOption.getD (here ++ [segment])) []
  directory ++ path.segments.getLast?.toList

/-- Puts an entry at an absolute path. -/
def put (fs : FileSystem) (path : Path) (e : Entry) : FileSystem :=
  fs.insert (fs.destination path) e

/-- The size of what a path leads to; that of a directory says nothing. -/
def size (fs : FileSystem) (path : Path) : Except PathError Nat :=
  match fs.get path with
  | .ok (.file _ size) => .ok size
  | .ok _ => .ok 0
  | .error e => .error e

/-- Bytes cut, or filled up with zeros, to a size. -/
def fit (bytes : Octets) (size : Nat) : Octets :=
  bytes.extract 0 size ++ Array.replicate (size - bytes.size) 0

/-- The bytes of the file that a path leads to. -/
def read (fs : FileSystem) (path : Path) : Except PathError Octets :=
  match fs.get path with
  | .ok (.file bytes size) => .ok (fit bytes size)
  | .ok _ => .error .isDirectory
  | .error e => .error e

/-- The path without links.  What does not exist stays as it is written. -/
def real (fs : FileSystem) (path : Path) : Path :=
  match fs.locate path with
  | .ok place => ⟨.root, place⟩
  | .error _ => ⟨.root, Path.resolveSegments true path.segments⟩

end FileSystem

end SymbolGraph
