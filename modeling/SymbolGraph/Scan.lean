import SymbolGraph.Event
import SymbolGraph.FileSystem
import SymbolGraph.Settings
import SymbolGraph.SourceUnit

/-!
# `Scan` — finding the sources of a directory tree

A source is a file, or a link to one, whose name ends with one of the
extensions and that is not too large.  Links to directories are not entered.
The unit of a directory lists its sources by their paths inside it; a link
may lead out of it, and such a source is listed apart.
-/

namespace SymbolGraph

namespace Scan

/-- What is scanned for. -/
structure Options where
  extensions : List String
  maxBytes : Number.Binary64

/-- The entries of a directory, which is seen under a path: its files, and the
directories to enter.  A link to a directory is neither. -/
def contents (fs : FileSystem) (place : List String) (path : Path) :
    List String × List String :=
  let names := fs.names place
  let isFile := fun name => match fs.entry? (place ++ [name]) with
    | some (.file ..) => true
    | some (.link _) => !fs.isDirectory (path.join ⟨.here, [name]⟩)
    | _ => false
  let isDirectory := fun name => match fs.entry? (place ++ [name]) with
    | some .directory => true
    | _ => false
  (names.filter isFile, names.filter isDirectory)

/-- The files below a directory, each with the path that leads there from the
path given; at most `depth` directories deep.  A directory whose path cannot
be looked up is passed over. -/
def filesBelow (fs : FileSystem) : (depth : Nat) → List String → Path → List Path
  | 0, _, _ => []
  | depth + 1, place, path =>
      if !fs.isDirectory path then []
      else
        let (files, directories) := contents fs place path
        files.map (fun name => path.join ⟨.here, [name]⟩) ++
          directories.flatMap fun name =>
            filesBelow fs depth (place ++ [name]) (path.join ⟨.here, [name]⟩)

/-- The files below a directory.  No path has more directories than the file
system has entries. -/
def filesIn (fs : FileSystem) (root : Path) : List Path :=
  match fs.locate root with
  | .ok place => filesBelow fs (fs.entries.length + 1) place root
  | .error _ => []

/-- Looks at one file: a source, with no links or dots resolved in its path but
`..`; or what is logged about it. -/
def examine (fs : FileSystem) (options : Options) (path : Path) :
    Option (Except Event String) :=
  if !options.extensions.any (Text.endsWith (path.segments.getLastD "")) then none
  else match fs.size path with
    | .error e => some (.error (.statFailed path.text (e.message path.text)))
    | .ok size =>
        if options.maxBytes.exceededBy size then some (.error (.tooLarge path.text size))
        else some (.ok path.resolve.text)

/-- The sources below a directory that is there, and what is logged. -/
def sourcesIn (fs : FileSystem) (options : Options) (root : Path) : List String × List Event :=
  let seen := (filesIn fs root).filterMap (examine fs options)
  (seen.filterMap Except.toOption,
    seen.filterMap fun
      | .error e => some e
      | .ok _ => none)

/-- The sources below a directory, and what is logged. -/
def files (fs : FileSystem) (options : Options) (root : Path) :
    Except PathError (List String × List Event) :=
  (fs.exists? root).map fun isThere =>
    if isThere then sourcesIn fs options root else ([], [.rootMissing root.text])

/-- The way from a directory down to a path in it, or `none` if it lies outside. -/
def below? : (directory path : List String) → Option (List String)
  | [], rest => some rest
  | _ :: _, [] => none
  | d :: directory, p :: path => if d = p then below? directory path else none

/-- A file inside a directory, by its path there, or one outside, by the path
given.  `real` says where an absolute path leads. -/
def place (real : Path → Path) (base file : Path) : String ⊕ String :=
  match below? base.segments (real (base.join file)).segments with
  | some segments => .inl (Path.mk .here segments).text
  | none => .inr file.resolve.text

/-- Files inside a directory and files outside, both in order. -/
def arrange (real : Path → Path) (base : Path) (files : List Path) :
    List String × List String :=
  let placed := files.map (place real base)
  let inside := fun (p : String ⊕ String) => match p with
    | .inl s => some s
    | .inr _ => none
  let outside := fun (p : String ⊕ String) => match p with
    | .inr s => some s
    | .inl _ => none
  (sortTexts (placed.filterMap inside), sortTexts (placed.filterMap outside))

/-- Files given by their texts, inside a directory and outside. -/
def split (real : Path → Path) (cwd : String) (files : List String) :
    Except Path.Fault (List String × List String) := do
  let base ← Path.read cwd
  let files ← files.mapM Path.read
  return arrange real (real base) files

/-- The unit of a directory tree, and what is logged. -/
def unit (fs : FileSystem) (options : Options) (subdir : String) (repo : Option String)
    (cwd : Path) : Except PathError (SourceUnit × List Event) :=
  let base := fs.real cwd
  (files fs options base).map fun (found, events) =>
    let (inside, outside) := arrange fs.real base (found.map Path.ofText)
    let u : SourceUnit :=
      { dir := (Path.ofText subdir).resolve.text
        files := inside
        repo := repo.filter (· ≠ "")
        data := if outside.isEmpty then [] else [("ExtraSourceFiles", .strs outside)] }
    (u, events ++ [.scanned inside.length outside.length])

end Scan

/-- The options that the settings give. -/
def Settings.scanOptions (s : Settings) : Scan.Options := ⟨s.extensions, s.maxBytes⟩

end SymbolGraph
