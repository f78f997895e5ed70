import SymbolGraph.Arguments
import SymbolGraph.Json.Writer
import SymbolGraph.Scan
import SymbolGraph.Workspace

/-!
# `Command` — the two commands

One command scans a directory tree and writes its source unit, the other reads
a source unit and writes its graph.  What a command does is a function of the
workspace and the text given to it; how it ends is its exit status, what it
writes, and what it logs.
-/

namespace SymbolGraph

inductive Command where
  | graph (unitFile : Option SwitchValue) (twoPass : Bool)
  | scan (repo : String) (subdir : SwitchValue)
  deriving Repr, DecidableEq

/-- How a command ends. -/
structure Ending where
  status : Nat
  output : String := ""
  events : List Event := []

/-- What stops a command without an ending of its own. -/
inductive Interruption where
  | setup (e : SetupError)
  | undecodable (fault : Text.Utf8.Fault)
  | malformed (fault : Path.Fault)
  /-- The value of `--debug-unit-file` is struck out. -/
  | voidUnitFile
  /-- The value of `--subdir` is struck out. -/
  | voidSubdir

def Interruption.message : Interruption → String
  | .setup e => e.message
  | .undecodable fault => fault.message
  | .malformed fault => fault.message
  | .voidUnitFile => "'list' object has no attribute 'read_text'"
  | .voidSubdir => "expected str, bytes or os.PathLike object, not list"

/-- Why there is no source unit. -/
inductive UnitError where
  | unreadable (reason : String)
  | invalid (problems : List Problem)
  deriving Repr, DecidableEq

def UnitError.message : UnitError → String
  | .unreadable reason => "failed to read source unit data: " ++ reason
  | .invalid problems =>
      "failed to read source unit data: " ++ ", ".intercalate (problems.map (·.kind.name))

/-- The graph of a unit, or why there is none, and what is logged. -/
structure Graphing where
  events : List Event
  result : Except ReadError (Store × Report)

namespace Command

/-- Which of the commands is called. -/
inductive Name where
  | graph
  | scan
  deriving Repr, DecidableEq

def unitFileSwitch : Switch := ⟨"--debug-unit-file", true⟩
def twoPassSwitch : Switch := ⟨"--two-pass", false⟩
def repoSwitch : Switch := ⟨"--repo", true⟩
def subdirSwitch : Switch := ⟨"--subdir", true⟩

/-- A repository that is struck out is none. -/
def repoText : SwitchValue → String
  | .text repo => repo
  | .void => ""

/-- The command that a command line asks for. -/
def ofWords : Name → List String → Except Usage Command
  | .graph, words =>
      (Arguments.read [unitFileSwitch, twoPassSwitch] words).map fun given =>
        .graph (Arguments.value? given unitFileSwitch.name)
          (Arguments.has given twoPassSwitch.name)
  | .scan, words =>
      (Arguments.read [repoSwitch, subdirSwitch] words).map fun given =>
        .scan ((Arguments.value? given repoSwitch.name).elim "" repoText)
          ((Arguments.value? given subdirSwitch.name).getD (.text "."))

/-- What a command writes: JSON with an indent of two, and a line end.  It is total.
That writing itself breaks off, at values that lie far deeper than a record may, and at
integers that are too long to be read, is not modelled. -/
def written (value : Json) : String := value.render (some 2) ++ "\n"

/-- The text of the unit: that of a file, or the input. -/
def unitText (w : Workspace) (input : String) :
    Option SwitchValue → Except Interruption (Except UnitError String)
  | none => .ok (.ok input)
  | some .void => .error .voidUnitFile
  | some (.text file) =>
      match Path.read file with
      | .error fault => .error (.malformed fault)
      | .ok path =>
          match w.files.read (w.directory.join path) with
          | .error e => .ok (.error (.unreadable (e.message path.text)))
          | .ok bytes =>
              match Text.Utf8.decode? bytes.toList with
              | .ok text => .ok (.ok text)
              | .error fault => .error (.undecodable fault)

/-- The unit that a command is to graph. -/
def loadUnit (w : Workspace) (input : String) (unitFile : Option SwitchValue) :
    Except Interruption (Except UnitError SourceUnit) :=
  (unitText w input unitFile).map fun text => do
    (SourceUnit.ofText (← text)).mapError .invalid

/-- Graphs the files of a unit into an empty store. -/
def graphUnit (w : Workspace) (twoPass : Option Bool) (u : SourceUnit) :
    Except SetupError Graphing :=
  (w.session twoPass).map fun session =>
    let opening := [Event.building u.name u.files.length]
    match session.process u.files {} with
    | .halted run e => ⟨opening ++ run.log.toList, .error e⟩
    | .done run report =>
        ⟨opening ++ run.log.toList ++ run.store.flushEvents, .ok (run.store.flush, report)⟩

/-- An end without a graph. -/
def failure (events : List Event) (message : String) : Ending :=
  { status := 1, events := events ++ [.graphFailed message] }

/-- What is logged before a unit is read. -/
def openingEvents : Option SwitchValue → List Event
  | some (.text file) => [.readingUnit (Path.ofText file).text]
  | _ => []

/-- What a graphing comes to.  Files that failed are named in the log. -/
def conclude (opening : List Event) (g : Graphing) : Ending :=
  match g.result with
  | .error e => failure (opening ++ g.events) e.message
  | .ok (store, report) =>
      let failed := (Report.failed report).map (·.path)
      { status := 0
        output := written store.toJson
        events := opening ++ g.events ++ if failed.isEmpty then [] else [.filesFailed failed] }

/-- Runs a command. -/
def run (w : Workspace) (input : String) : Command → Except Interruption Ending
  | .graph unitFile twoPass =>
      let opening := openingEvents unitFile
      match loadUnit w input unitFile with
      | .error e => .error e
      | .ok (.error e) => .ok (failure opening e.message)
      | .ok (.ok u) =>
          match graphUnit w (if twoPass then some true else none) u with
          | .error e => .error (.setup e)
          | .ok g => .ok (conclude opening g)
  | .scan repo subdir =>
      match w.settings with
      | .error e => .error (.setup (.settings e))
      | .ok settings =>
          match subdir with
          | .void => .error .voidSubdir
          | .text subdir =>
              match Scan.unit w.files settings.scanOptions subdir (some repo) w.directory with
              | .error e =>
                  .ok { status := 1, events := [.scanFailed (e.message w.directory.text)] }
              | .ok (u, events) => .ok { status := 0, output := written (.arr [u.toJson]), events }

/-- Runs what a command line asks for. -/
def runWords (w : Workspace) (input : String) (name : Name) (words : List String) :
    Except Interruption Ending :=
  match ofWords name words with
  | .error .help => .ok { status := 0 }
  | .error .wrong => .ok { status := 2 }
  | .ok command => command.run w input

end Command

end SymbolGraph
