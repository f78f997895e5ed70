import SymbolGraph.Proofs.Lookup
import SymbolGraph.Proofs.Process
import SymbolGraph.Scan
import SymbolGraph.Workspace

/-!
# `Proofs.Scanned` — what is listed for a directory is what a run there can read

The scanner looks files up by the path without links of its directory, and measures
them against the limit as it is set; a run looks them up from the directory as it is
given, and measures them in whole bytes.  Both come to the same place
(`FileSystem.follow_append`) and to the same verdict (`Settings.le_sizeLimit`), so
each listed file is a SOURCE: a file below the directory, not too large for the run.

Two things part them.  A limit that is no finite number is one for the scanner alone:
no run starts with it.  And a path that is too long for a look-up is too long as it is
written, which it may be from the directory and not from where the directory lies.
-/

namespace SymbolGraph

/-! ## The limit -/

namespace Number.Binary64

end Number.Binary64

namespace Settings

end Settings

/-! ## What is listed -/

namespace Scan

variable {fs : FileSystem} {options : Options}

/-- A file below a directory, within the limit. -/
structure Source (fs : FileSystem) (options : Options) (base segments : List String)
    (bytes : Octets) (size : Nat) : Prop where
  settled : fs.Settled (base ++ segments)
  entry : fs.entry? (base ++ segments) = some (.file bytes size)
  fits : options.maxBytes.exceededBy size = false

theorem eq_append_of_below? : ∀ {directory path rest : List String},
    below? directory path = some rest → path = directory ++ rest
  | [], _, _, h => Option.some.inj h
  | _ :: _, [], _, h => by cases h
  | d :: directory, p :: path, rest, h => by
      unfold below? at h
      split at h
      · next heq => rw [heq, eq_append_of_below? h, List.cons_append]
      · cases h

namespace Source

variable {base segments : List String} {bytes : Octets} {size : Nat}
  (h : Source fs options base segments bytes size) (hnames : fs.WellNamed)
include h hnames

theorem isName : ∀ name ∈ segments, FileSystem.IsName name :=
  fun name hname => h.settled.isName hnames name (List.mem_append_right _ hname)

end Source

end Scan

/-! ## What a run reads -/

namespace Workspace

variable {w : Workspace}

end Workspace

namespace Session

section Read

variable {w : Workspace} {s : Session} (hsources : s.sources = w.sources)
  {options : Scan.Options} {base segments : List String} {bytes : Octets} {size : Nat}
  (h : Scan.Source w.files options base segments bytes size) (hnames : w.files.WellNamed)
include hsources h hnames

end Read

end Session

end SymbolGraph
