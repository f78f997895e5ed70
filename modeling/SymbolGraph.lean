import SymbolGraph.Action
import SymbolGraph.Arguments
import SymbolGraph.Command
import SymbolGraph.Cst.Basic
import SymbolGraph.Cst.Issues
import SymbolGraph.Cst.Json
import SymbolGraph.Cst.Parse
import SymbolGraph.Cst.Reading.Basic
import SymbolGraph.Cst.Reading.Construct
import SymbolGraph.Cst.Reading.Container
import SymbolGraph.Cst.Reading.Declarator
import SymbolGraph.Cst.Reading.Inclusion
import SymbolGraph.Cst.Reading.Selector
import SymbolGraph.Cst.Reading.Specifier
import SymbolGraph.Cst.Reading.Statement
import SymbolGraph.Dict
import SymbolGraph.Entity
import SymbolGraph.Event
import SymbolGraph.FileSystem
import SymbolGraph.Json.Basic
import SymbolGraph.Json.Token
import SymbolGraph.Json.Reader
import SymbolGraph.Json.Writer
import SymbolGraph.Key
import SymbolGraph.Main
import SymbolGraph.Number.Binary64
import SymbolGraph.Number.Decimal
import SymbolGraph.Path
import SymbolGraph.Problem
import SymbolGraph.Run
import SymbolGraph.Scan
import SymbolGraph.Scope
import SymbolGraph.Settings
import SymbolGraph.Settings.Value
import SymbolGraph.SourceUnit
import SymbolGraph.Store
import SymbolGraph.Symbols
import SymbolGraph.Text.Basic
import SymbolGraph.Text.Classes
import SymbolGraph.Text.Identifier
import SymbolGraph.Text.Quoted
import SymbolGraph.Text.Utf8
import SymbolGraph.Tree.Basic
import SymbolGraph.Walk
import SymbolGraph.Workspace
import SymbolGraph.Proofs.Act
import SymbolGraph.Proofs.Path
import SymbolGraph.Proofs.Store
import SymbolGraph.Proofs.Traversal
import SymbolGraph.Proofs.Restore
import SymbolGraph.Proofs.Pass
import SymbolGraph.Proofs.Process
import SymbolGraph.Proofs.Definitions
import SymbolGraph.Proofs.FileOrder
import SymbolGraph.Proofs.Occurrence
import SymbolGraph.Proofs.VisitOrder
import SymbolGraph.Proofs.Halt
import SymbolGraph.Proofs.Reached
import SymbolGraph.Proofs.SelfReference
import SymbolGraph.Proofs.Scopes
import SymbolGraph.Proofs.Key
import SymbolGraph.Proofs.Lexical
import SymbolGraph.Proofs.Locals
import SymbolGraph.Proofs.Faithful
import SymbolGraph.Proofs.Reading
import SymbolGraph.Proofs.SelectorSpan
import SymbolGraph.Proofs.ByteSpan
import SymbolGraph.Proofs.Placed
import SymbolGraph.Proofs.Writes
import SymbolGraph.Proofs.Calls
import SymbolGraph.Proofs.Backing
import SymbolGraph.Proofs.Construct
import SymbolGraph.Proofs.SelectorName
import SymbolGraph.Proofs.Trimmed
import SymbolGraph.Proofs.Comment
import SymbolGraph.Proofs.Nameless
import SymbolGraph.Proofs.Lookup
import SymbolGraph.Proofs.Scanned
import SymbolGraph.Proofs.Spelling
import SymbolGraph.Proofs.Rerun
import SymbolGraph.Proofs.TreeCache
import SymbolGraph.Proofs.Tally
import SymbolGraph.Proofs.JsonTokens
import SymbolGraph.Proofs.UnitRecord
import SymbolGraph.Proofs.Origin
import SymbolGraph.Proofs.Frames
import SymbolGraph.Proofs.Environment
import SymbolGraph.Proofs.Resolution
import SymbolGraph.Proofs.MessageArguments
import SymbolGraph.Proofs.CompoundReceiver
import SymbolGraph.Proofs.FreshBlocks
import SymbolGraph.Proofs.Visit
import SymbolGraph.Proofs.Discipline
import SymbolGraph.Proofs.Issues
import SymbolGraph.Proofs.MessageChain
import SymbolGraph.Proofs.Partition
import SymbolGraph.Proofs.Checked
import SymbolGraph.Proofs.Unfailing
import SymbolGraph.Proofs.NormalForm
import SymbolGraph.Proofs.KeyPath
import SymbolGraph.Proofs.ScopeMaps
import SymbolGraph.Proofs.Inclusion
import SymbolGraph.Proofs.DeclaratorChain
