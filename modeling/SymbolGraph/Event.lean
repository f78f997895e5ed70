import SymbolGraph.Entity

/-!
# `Event` — what is logged

Every event is a value, so what a run logs, and in which order, is part of
its result.
-/

namespace SymbolGraph

inductive Level where
  | debug | info | warning | error
  deriving Repr, DecidableEq

def Level.name : Level → String
  | .debug => "debug"
  | .info => "info"
  | .warning => "warning"
  | .error => "error"

/-- Two definitions that were written under one key. -/
structure Collision where
  previous : Definition
  current : Definition
  deriving Repr, DecidableEq, Inhabited

/-- A place where the source does not parse: lines count from one, columns are
bytes from zero. -/
structure Issue where
  line : Int
  column : Int
  message : String
  deriving Repr, DecidableEq, Inhabited

inductive Event where
  | parsed (path : String) (items errors : Nat)
  | processing (file : String) (includedFrom : Option String)
  | collecting (files : Nat)
  | skipped (file node : String) (start : Int) (reason : String)
  | collision (c : Collision)
  | issue (file : String) (i : Issue)
  | walkFailed (file error : String)
  | flushed (definitions references : Nat)
  | complete (files failed definitions references : Nat)
  | building (unit : String) (files : Nat)
  | scanned (files external : Nat)
  | rootMissing (root : String)
  | statFailed (path error : String)
  | tooLarge (path : String) (size : Nat)
  | readingUnit (path : String)
  | graphFailed (error : String)
  | scanFailed (error : String)
  | filesFailed (files : List String)
  deriving Repr, DecidableEq

namespace Event

def level : Event → Level
  | parsed .. | skipped .. | flushed .. | readingUnit .. => .debug
  | processing .. | collecting .. | complete .. | building .. | scanned .. => .info
  | collision .. | issue .. | rootMissing .. | statFailed .. | tooLarge .. | filesFailed .. =>
      .warning
  | walkFailed .. | graphFailed .. | scanFailed .. => .error

def name : Event → String
  | parsed .. => "parsed_file"
  | processing .. => "processing_file"
  | collecting .. => "collecting_declarations"
  | skipped .. => "skipped_node"
  | collision .. => "definition_collision"
  | issue .. => "syntax_error"
  | walkFailed .. => "file_walk_failed"
  | flushed .. => "graph_flushed"
  | complete .. => "graph_complete"
  | building .. => "building_graph"
  | scanned .. => "scanned_unit"
  | rootMissing .. => "scan_root_missing"
  | statFailed .. => "scan_stat_failed"
  | tooLarge .. => "file_too_large"
  | readingUnit .. => "reading_unit_file"
  | graphFailed .. => "graph_failed"
  | scanFailed .. => "scan_failed"
  | filesFailed .. => "files_failed"

/-- What an event says, by name. -/
def fields : Event → List (String × Json)
  | parsed path items errors =>
      [("path", .str path), ("items", .nat items), ("errors", .nat errors)]
  | processing file includedFrom => [("file", .str file), ("included_from", .optStr includedFrom)]
  | collecting files => [("files", .nat files)]
  | skipped file node start reason =>
      [("file", .str file), ("node", .str node), ("start", .int start), ("reason", .str reason)]
  | collision c =>
      [("path", .str c.current.key.path), ("previous_file", .str c.previous.file),
        ("previous_start", .int c.previous.start), ("previous_end", .int c.previous.stop),
        ("file", .str c.current.file), ("start", .int c.current.start),
        ("end", .int c.current.stop)]
  | issue file i =>
      [("file", .str file), ("line", .int i.line), ("column", .int i.column),
        ("message", .str i.message)]
  | walkFailed file error => [("file", .str file), ("error", .str error)]
  | flushed definitions references => [("defs", .nat definitions), ("refs", .nat references)]
  | complete files failed definitions references =>
      [("files", .nat files), ("failed", .nat failed), ("definitions", .nat definitions),
        ("references", .nat references)]
  | building unit files => [("unit", .str unit), ("files", .nat files)]
  | scanned files external => [("files", .nat files), ("external", .nat external)]
  | rootMissing root => [("root", .str root)]
  | statFailed path error => [("path", .str path), ("error", .str error)]
  | tooLarge path size => [("path", .str path), ("size_bytes", .nat size)]
  | readingUnit path => [("path", .str path)]
  | graphFailed error | scanFailed error => [("error", .str error)]
  | filesFailed files => [("count", .nat files.length), ("files", .strs files)]

def toJson (e : Event) : Json :=
  .obj (("level", .str e.level.name) :: ("event", .str e.name) :: e.fields)

end Event

end SymbolGraph
