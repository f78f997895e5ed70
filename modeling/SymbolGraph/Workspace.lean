import SymbolGraph.FileSystem
import SymbolGraph.Run
import SymbolGraph.Settings

/-!
# `Workspace` — what a run finds around it

The environment, the files and the directory in which a run works; from these
come its settings and its sources.
-/

namespace SymbolGraph

/-- Why nothing can be run here. -/
inductive SetupError where
  | settings (e : SettingsError)
  | limit (e : LimitError)
  deriving Repr, DecidableEq

def SetupError.message : SetupError → String
  | .settings e => e.message
  | .limit e => e.message

structure Workspace where
  environment : Environment := []
  files : FileSystem := {}
  directory : Path
  /-- What is logged, and the tree of a file. -/
  parse : Octets → String → List Event × Except ParseError Parsed

namespace Workspace

def settings (w : Workspace) : Except SettingsError Settings :=
  Settings.ofEnvironment w.environment

/-- Looks a path up.  A path with a NUL in it belongs to no file. -/
def access {α : Type} (w : Workspace) (look : Path → Except PathError α) (path : String) :
    Except AccessError α :=
  match Path.read path with
  | .error fault => .error (.malformed fault)
  | .ok path =>
      let full := w.directory.join path
      (look full).mapError fun e => .system (e.message full.text)

def sources (w : Workspace) : Sources where
  size := w.access w.files.size
  read := w.access w.files.read
  parse := w.parse

/-- A session here; it is for the settings to say whether there are two passes
unless `twoPass` does. -/
def session (w : Workspace) (twoPass : Option Bool) : Except SetupError Session :=
  match w.settings with
  | .error e => .error (.settings e)
  | .ok settings =>
      match settings.sizeLimit with
      | .error e => .error (.limit e)
      | .ok sizeLimit =>
          .ok ⟨w.directory, twoPass.getD settings.twoPass, sizeLimit, w.sources⟩

end Workspace

end SymbolGraph
