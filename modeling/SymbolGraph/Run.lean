import SymbolGraph.Cst.Parse
import SymbolGraph.Path
import SymbolGraph.Walk

/-!
# `Run` — graphing the files of a unit

A run walks each configured file once, in the order given, and an included
file where it is included, so that what it declares is known from there on.
In two passes, a first pass over all files fills the tables and writes
nothing; its trees are kept for the second.  Which pass is under way is part of
the state: a pass sets it and puts it back, also where it halts.

A file that cannot be READ ends the run.  A file that is too large or does not
parse is reported as failed, and the run goes on.  Either way the state stays
as it is at that moment, and later steps start from it.
-/

namespace SymbolGraph

/-- Why a path gives no bytes: the system says so, which ends a run, or the
path itself can belong to no file, which fails this file only. -/
inductive AccessError where
  | system (reason : String)
  | malformed (fault : Path.Fault)
  deriving Repr, DecidableEq

/-- Where the files of a run come from. -/
structure Sources where
  size : String → Except AccessError Nat
  read : String → Except AccessError Octets
  /-- What is logged, and the tree. -/
  parse : Octets → String → List Event × Except ParseError Parsed

/-- What stays the same during a run. -/
structure Session where
  /-- The directory that the files are named from, as an absolute path. -/
  root : Path
  twoPass : Bool
  sizeLimit : Nat
  sources : Sources

/-- What became of one file: failed if there is an error. -/
structure FileResult where
  path : String
  counts : Counts := {}
  issues : List Issue := []
  error : Option String := none
  deriving Repr, DecidableEq, Inhabited

namespace FileResult

def isFailed (f : FileResult) : Bool := f.error.isSome

def status (f : FileResult) : String := if f.isFailed then "failed" else "ok"

end FileResult

/-- The files of one run, in the order in which their walks ended. -/
abbrev Report := List FileResult

namespace Report

def failed (r : Report) : Report := r.filter (·.isFailed)

def definitions (r : Report) : Nat := r.foldr (·.counts.definitions + ·) 0

def references (r : Report) : Nat := r.foldr (·.counts.references + ·) 0

end Report

/-- A configured file that cannot be read. -/
structure ReadError where
  file : String
  reason : String
  deriving Repr, DecidableEq

def ReadError.message (e : ReadError) : String := "failed to read " ++ e.file ++ ": " ++ e.reason

/-- Where a run writes.  The first of two passes collects declarations and writes
nowhere, the other one emits. -/
inductive Pass where
  | collecting
  | emitting
  deriving Repr, DecidableEq

/-- The state of a run. -/
structure Run where
  /-- The configured files. -/
  files : List String := []
  visited : List String := []
  symbols : Symbols := {}
  store : Store := {}
  /-- Trees of the first pass. -/
  cache : Dict Parsed := []
  report : Report := []
  log : Array Event := #[]
  /-- The files that were parsed, one entry for each time. -/
  parses : Array String := #[]
  /-- The pass under way; between two calls, a file is processed as in the second one. -/
  pass : Pass := .emitting

/-- How a step of a run ends: with a value, or because a file cannot be read. -/
inductive Outcome (α : Type) where
  | done (run : Run) (value : α)
  | halted (run : Run) (error : ReadError)

namespace Run

def inPass (run : Run) (pass : Pass) : Run := { run with pass }

def logAll (run : Run) (events : List Event) : Run :=
  { run with log := events.foldl Array.push run.log }

/-- The number of configured files still to be visited. -/
def unvisited (run : Run) : Nat := (run.files.filter fun f => !run.visited.contains f).length

/-- Keeps what a step has written, unless declarations are only collected. -/
def record (pass : Pass) (file : String) (run : Run) : Emission → Run
  | .skipped reason start =>
      run.logAll [.skipped file reason.construct start reason.message]
  | .definition d =>
      match pass with
      | .collecting => run
      | .emitting => { run.logAll (run.store.defineEvents d) with store := run.store.define d }
  | .reference r =>
      match pass with
      | .collecting => run
      | .emitting => { run with store := run.store.refer r }

/-- Performs the steps of a file; `enter` follows an inclusion. -/
def walk (enter : String → Run → Outcome (Option FileResult)) (pass : Pass) (file : String) :
    List Action → Walker → Counts → Run → Outcome Counts
  | [], _, counts, run => .done run counts
  | .inclusion path :: rest, w, counts, run =>
      match enter path run with
      | .done run _ => walk enter pass file rest w counts run
      | .halted run e => .halted run e
  | a :: rest, w, counts, run =>
      let (w, symbols, emissions) := perform file a w run.symbols
      walk enter pass file rest w (emissions.foldl Counts.add counts)
        (emissions.foldl (record pass file) { run with symbols })

end Run

/-- The same end, with the run in the given pass. -/
def Outcome.inPass {α : Type} (pass : Pass) : Outcome α → Outcome α
  | .done run value => .done (run.inPass pass) value
  | .halted run e => .halted (run.inPass pass) e

/-- What loading a file gives. -/
inductive Loaded where
  | parsed (p : Parsed)
  | failed (reason : String)
  | unreadable (reason : String)

namespace Session

/-- The one spelling of a path. -/
def normalize (s : Session) (path : String) : String := Path.normalize s.root (.ofText path)

/-- The one spelling of a path that a file includes. -/
def normalizeFrom (s : Session) (includedFrom : Option String) (path : String) : String :=
  Path.normalize s.root (.included includedFrom path)

/-- The bytes of a file that is not too large. -/
def readFile (s : Session) (file : String) : Except Loaded Octets :=
  match s.sources.size file with
  | .error (.system reason) => .error (.unreadable reason)
  | .error (.malformed fault) => .error (.failed fault.message)
  | .ok size =>
      if s.sizeLimit < size then
        .error (.failed ("file too large: " ++ toString size ++ " bytes"))
      else match s.sources.read file with
        | .error (.system reason) => .error (.unreadable reason)
        | .error (.malformed fault) => .error (.failed fault.message)
        | .ok bytes => .ok bytes

/-- The tree of a file: from the cache, from which it is taken out, or parsed
anew. -/
def fetch (s : Session) (file : String) (run : Run) : Run × Loaded :=
  match run.cache.get? file with
  | some p => ({ run with cache := run.cache.erase file }, .parsed p)
  | none =>
      match s.readFile file with
      | .error other => (run, other)
      | .ok bytes =>
          let (events, parsed) := s.sources.parse bytes file
          let run := { run.logAll events with parses := run.parses.push file }
          match parsed with
          | .ok p => (run, .parsed p)
          | .error e => (run, .failed e.message)

/-- The tree of a file.  The first pass leaves it in the cache. -/
def load (s : Session) (pass : Pass) (file : String) (run : Run) : Run × Loaded :=
  match pass, s.fetch file run with
  | .collecting, (run, .parsed p) => ({ run with cache := run.cache.set file p }, .parsed p)
  | _, result => result

/-- Reports what became of a file. -/
def conclude (pass : Pass) (run : Run) (result : FileResult) : Outcome (Option FileResult) :=
  match pass with
  | .collecting => .done run (some result)
  | .emitting => .done { run with report := run.report ++ [result] } (some result)

/-- Loads and walks a file that is being visited. -/
def visit (s : Session) (pass : Pass) (enter : String → Run → Outcome (Option FileResult))
    (file : String) (run : Run) : Outcome (Option FileResult) :=
  match s.load pass file run with
  | (run, .unreadable reason) => .halted run ⟨file, reason⟩
  | (run, .failed reason) =>
      let run := match pass with
        | .collecting => run
        | .emitting => run.logAll [.walkFailed file reason]
      conclude pass run { path := file, error := reason }
  | (run, .parsed p) =>
      let run := match pass with
        | .collecting => run
        | .emitting => run.logAll (p.issues.map (.issue file))
      match run.walk enter pass file (p.tree.actions {}) {} {} with
      | .done run counts => conclude pass run { path := file, counts, issues := p.issues }
      | .halted run e => .halted run e

/-- Processes a file, unless it is not configured or was visited before.  Each
visit takes one of the files that are left, so `depth` visits inside one another
are enough if no more files than that are left. -/
def processWithin (s : Session) (pass : Pass) :
    (depth : Nat) → (includedFrom : Option String) → (path : String) → Run →
      Outcome (Option FileResult)
  | depth, includedFrom, path, run =>
      let file := s.normalizeFrom includedFrom path
      if !run.files.contains file || run.visited.contains file then .done run none
      else match depth with
        | 0 => .done run none
        | depth + 1 =>
            let run := { run.logAll [.processing file includedFrom] with
              visited := run.visited ++ [file] }
            s.visit pass (processWithin s pass depth (some file)) file run

/-- Processes a file, unless it is not configured or was visited before. -/
def processFile (s : Session) (pass : Pass) (includedFrom : Option String) (path : String)
    (run : Run) : Outcome (Option FileResult) :=
  s.processWithin pass run.unvisited includedFrom path run

/-- Processes a file in the pass under way. -/
def processPath (s : Session) (includedFrom : Option String) (path : String) (run : Run) :
    Outcome (Option FileResult) :=
  s.processFile run.pass includedFrom path run

/-- Processes a list of files in the pass under way. -/
def processAll (s : Session) : List String → Run → Outcome Unit
  | [], run => .done run ()
  | path :: rest, run =>
      match s.processPath none path run with
      | .done run _ => processAll s rest run
      | .halted run e => .halted run e

/-- One pass over a list of files.  Whether it is done or halts, the run is then
in the pass again that it was in before. -/
def runPass (s : Session) (pass : Pass) (paths : List String) (run : Run) : Outcome Unit :=
  (s.processAll paths (run.inPass pass)).inPass run.pass

/-- The second pass, or the only one, and the end of the run. -/
def emit (s : Session) (ordered : List String) (run : Run) : Outcome Report :=
  match s.runPass .emitting ordered { run with report := [] } with
  | .halted run e => .halted run e
  | .done run _ =>
      let run := { run.logAll run.store.flushEvents with store := run.store.flush, cache := [] }
      let report := run.report
      .done (run.logAll [.complete report.length (Report.failed report).length
        (Report.definitions report) (Report.references report)]) report

/-- Graphs a list of files. -/
def process (s : Session) (paths : List String) (run : Run) : Outcome Report :=
  let ordered := paths.map s.normalize
  let run := { run with files := ordered }
  if s.twoPass then
    match s.runPass .collecting ordered (run.logAll [.collecting ordered.length]) with
    | .halted run e => .halted run e
    | .done run _ => s.emit ordered { run with visited := [] }
  else s.emit ordered run

end Session

end SymbolGraph
