import LuaPages.Text.Bytes
import LuaPages.Text.Utf8
import LuaPages.Number.Binary64
import LuaPages.Number.Shortest
import LuaPages.Number.Format
import LuaPages.Lua.Numeral
import LuaPages.Lua.Token
import LuaPages.Lua.Lexer
import LuaPages.Lua.Syntax
import LuaPages.Lua.Scope
import LuaPages.Lua.Parser
import LuaPages.Lua.Value
import LuaPages.Lua.Table
import LuaPages.Lua.Program
import LuaPages.Lua.Operation
import LuaPages.Lua.Evaluate
import LuaPages.Lua.Machine
import LuaPages.Lua.Library.Run
import LuaPages.Lua.State
import LuaPages.Document.Marker
import LuaPages.Document.Destination
import LuaPages.Session
import LuaPages.Sessions
import LuaPages.Sinks
import LuaPages.Document.Expansion
import LuaPages.Document.Segment
import LuaPages.Document.Interpret
import LuaPages.Text.Blank
import LuaPages.Text.Parts
import LuaPages.Number.RealText
import LuaPages.Duration
import LuaPages.Document.LineBuffer
import LuaPages.Document.Deadline
import LuaPages.Files.Path
import LuaPages.Files.Access
import LuaPages.Files.Tree
import LuaPages.Site.Timeout
import LuaPages.Site.Words
import LuaPages.Site.Config
import LuaPages.Site.Directive
import LuaPages.Site.SiteFile
import LuaPages.Site.RequestPath
import LuaPages.Site.Serve
import LuaPages.CommandLine.Arguments
import LuaPages.CommandLine.Search
import LuaPages.CommandLine.Run
import LuaPages.Main
import LuaPages.Proofs.Document.Reading
import LuaPages.Proofs.Document.Outcome
import LuaPages.Proofs.Document.Driver
import LuaPages.Proofs.Document.ByteMachine
import LuaPages.Proofs.Document.Layout
import LuaPages.Proofs.Document.FirstFailure
import LuaPages.Proofs.Document.Joining
import LuaPages.Proofs.Document.Limit
import LuaPages.Proofs.Document.Delivery
import LuaPages.Proofs.Document.Invariant
import LuaPages.Proofs.Text.Parts
import LuaPages.Proofs.Files.Path
import LuaPages.Proofs.Document.Deadline
import LuaPages.Proofs.Site.RequestPath
import LuaPages.Proofs.Site.Resolution
import LuaPages.Proofs.Site.Serve
import LuaPages.Proofs.Site.Confinement
import LuaPages.Proofs.Site.Coverage
import LuaPages.Proofs.Site.SiteFile
import LuaPages.Proofs.Site.Lines
import LuaPages.Proofs.Site.Quoting
import LuaPages.Proofs.CommandLine.Grammar
import LuaPages.Proofs.CommandLine.Paths
import LuaPages.Proofs.CommandLine.Modes
import LuaPages.Proofs.Session
import LuaPages.Proofs.Sessions
import LuaPages.Proofs.Lua.Confined
import LuaPages.Proofs.Lua.Keeps
import LuaPages.Proofs.Lua.Tables
import LuaPages.Proofs.Lua.Operation
import LuaPages.Proofs.Lua.Evaluate
import LuaPages.Proofs.Lua.Print
import LuaPages.Proofs.Lua.Tostring
import LuaPages.Proofs.Sinks
import LuaPages.Proofs.Document.Printer
import LuaPages.Proofs.Lua.Library.Texts
import LuaPages.Proofs.Lua.Library.Arithmetic
import LuaPages.Proofs.Lua.Library.Sequence
import LuaPages.Proofs.Lua.Library.Base
import LuaPages.Proofs.Lua.Machine
import LuaPages.Proofs.Lua.State
import LuaPages.Proofs.Files.Tree
import LuaPages.Proofs.Site.LookupErrors
import LuaPages.Proofs.Number.Binary64
import LuaPages.Proofs.Number.Rounding
import LuaPages.Proofs.Number.RealText
import LuaPages.Proofs.Site.Timeout
import LuaPages.Proofs.Timeouts
