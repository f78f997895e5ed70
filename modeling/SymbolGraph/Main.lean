import SymbolGraph.Command
import SymbolGraph.Cst.Json

/-!
# The command line

    symbolgraph scan [--repo URI] [--subdir PATH]
    symbolgraph graph [--debug-unit-file FILE] [--two-pass]

The concrete syntax tree of a source is read from a JSON file beside it, whose
name is that of the source and `.cst.json`.  Files are read into a
`FileSystem` first; what is done with them, `Command` says.  The log goes to
the standard error, one JSON value a line.
-/

namespace SymbolGraph

/-- The variables that `Settings` knows. -/
def knownVariables : List String :=
  ["GRAPH", "GRAPH_EXTENSIONS", "GRAPH_TWO_PASS", "GRAPH_MAX_FILE_SIZE_MB", "LOGGING",
    "LOG_LEVEL", "LOG_FORMAT", "APP_NAME", "APP_VERSION", "ENVIRONMENT"]

def readEnvironment : IO Environment :=
  knownVariables.filterMapM fun name => do
    return (← IO.getEnv name).map fun value => (name, value)

/-- A name that no directory holds: where a link that leads nowhere leads. -/
def nowhere : String := String.singleton (Char.ofNat 0)

/-- Adds the file at a path, if there is one. -/
def loadFile (fs : FileSystem) (path : Path) : IO FileSystem := do
  try
    let bytes ← IO.FS.readBinFile path.text
    return fs.insert path.segments (.file bytes.data bytes.size)
  catch _ => return fs

/-- Adds where a link leads: the file there with its size, or the directory. -/
def loadTarget (fs : FileSystem) (link : List String) (entry : IO.FS.DirEntry) :
    IO FileSystem := do
  try
    let target ← IO.FS.realPath entry.path
    let found ← target.metadata
    let kind := if found.type == .dir then Entry.directory else .file #[] found.byteSize.toNat
    let place := (Path.ofText target.toString).segments
    let fs := if (fs.entry? place).isSome then fs else fs.insert place kind
    return fs.insert link (.link target.toString)
  catch _ => return fs.insert link (.link nowhere)

/-- Adds the tree below a directory, files with their sizes only. -/
partial def loadTree (fs : FileSystem) (place : List String) (entries : Array IO.FS.DirEntry) :
    IO FileSystem :=
  entries.foldlM (fun fs entry => do
    let place := place ++ [entry.fileName]
    let found ← entry.path.symlinkMetadata
    match found.type with
    | .dir => loadTree (fs.insert place .directory) place (← entry.path.readDir)
    | .symlink => loadTarget fs place entry
    | _ => return fs.insert place (.file #[] found.byteSize.toNat)) fs

/-- The file that holds the tree of a source. -/
def treeFile (source : String) : String := source ++ ".cst.json"

/-- Reads the tree of a source from the file beside it. -/
def parseBeside (fs : FileSystem) (directory : Path) (bytes : Octets) (source : String) :
    List Event × Except ParseError Parsed :=
  match fs.read (directory.join (.ofText (treeFile source))) with
  | .error e => ([], .error (.raised (e.message (treeFile source))))
  | .ok tree =>
      match Json.parse? { nesting := tree.size } (Text.Utf8.decode tree.toList) with
      | none => ([], .error (.raised (treeFile source ++ " is not JSON")))
      | some json =>
          match (Cst.ofJson json).parse bytes with
          | .error e => ([], .error e)
          | .ok p => ([.parsed source p.itemCount p.issues.length], .ok p)

/-- The files that a unit names, with their trees. -/
def loadSources (fs : FileSystem) (directory : Path) (u : SourceUnit) : IO FileSystem :=
  u.files.foldlM (fun fs file => do
    let source := Path.normalize directory (.ofText file)
    let fs ← loadFile fs (directory.join (.ofText source))
    loadFile fs (directory.join (.ofText (treeFile source)))) fs

/-- The workspace that a command needs. -/
def openWorkspace (command : Command) (input : String) : IO Workspace := do
  let here ← IO.currentDir
  let directory := Path.ofText here.toString
  let environment ← readEnvironment
  let within := fun (files : FileSystem) =>
    ({ environment, files, directory, parse := parseBeside files directory } : Workspace)
  let empty := ({} : FileSystem).insert directory.segments .directory
  match command with
  | .scan .. => return within (← loadTree empty directory.segments (← here.readDir))
  | .graph unitFile _ =>
      let files ← match unitFile with
        | some (.text file) => loadFile empty (directory.join (.ofText file))
        | _ => pure empty
      match Command.loadUnit (within files) input unitFile with
      | .ok (.ok u) => return within (← loadSources files directory u)
      | _ => return within files

/-- Runs a command on the files that are there. -/
def runCommand (name : Command.Name) (words : List String) : IO UInt32 := do
  match Command.ofWords name words with
  | .error .help => return 0
  | .error .wrong => return 2
  | .ok command =>
      let input ← match command with
        | .graph none _ => do (← IO.getStdin).readToEnd
        | _ => pure ""
      match command.run (← openWorkspace command input) input with
      | .error interruption =>
          IO.eprintln interruption.message
          return 1
      | .ok ending =>
          ending.events.forM fun event => IO.eprintln (event.toJson.render none)
          IO.print ending.output
          return UInt32.ofNat ending.status

end SymbolGraph

def main : List String → IO UInt32
  | "scan" :: words => SymbolGraph.runCommand .scan words
  | "graph" :: words => SymbolGraph.runCommand .graph words
  | _ => do
      IO.eprintln "usage: symbolgraph (scan | graph) [switches]"
      return 2
