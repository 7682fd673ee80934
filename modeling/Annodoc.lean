import Annodoc.Catalog.Basic
import Annodoc.Catalog.Export
import Annodoc.Catalog.Format
import Annodoc.Catalog.ParamTree
import Annodoc.Catalog.Report
import Annodoc.CommandLine
import Annodoc.Comment.AliasBlock
import Annodoc.Comment.ClassBlock
import Annodoc.Comment.FunctionBlock
import Annodoc.Comment.Line
import Annodoc.Comment.Outcome
import Annodoc.Comment.Purpose
import Annodoc.Documentation
import Annodoc.Event
import Annodoc.FileSystem
import Annodoc.Glob.Pattern
import Annodoc.Glob.Walk
import Annodoc.Grammar.Mismatch
import Annodoc.Grammar.Token
import Annodoc.Json.Value
import Annodoc.LuaType.Basic
import Annodoc.LuaType.Parser
import Annodoc.LuaType.Printer
import Annodoc.Main
import Annodoc.Path
import Annodoc.Project
import Annodoc.RunFailure
import Annodoc.Text.Blank
import Annodoc.Text.Bytes
import Annodoc.Text.CodePoints
import Annodoc.Text.Graphic
import Annodoc.Text.Lines
import Annodoc.Text.Quoted
import Annodoc.Text.Utf8
import Annodoc.Text.Word
import Annodoc.Proofs.Catalog.Expansion
import Annodoc.Proofs.Comment.Accounting
import Annodoc.Proofs.Comment.Independence
import Annodoc.Proofs.Comment.Runs
import Annodoc.Proofs.Comment.StoredTypes
import Annodoc.Proofs.Comment.Written
import Annodoc.Proofs.Comment.WrittenClass
import Annodoc.Proofs.Comment.WrittenFunction
import Annodoc.Proofs.Grammar.Span
import Annodoc.Proofs.Grammar.Token
import Annodoc.Proofs.LuaType.Compound
import Annodoc.Proofs.LuaType.Exactness
import Annodoc.Proofs.LuaType.Follow
import Annodoc.Proofs.LuaType.Parsing
import Annodoc.Proofs.LuaType.Rendering
import Annodoc.Proofs.LuaType.WellFormed
import Annodoc.Proofs.LuaType.Word
import Annodoc.Proofs.Text.Bytes
import Annodoc.Proofs.Catalog.Lookup
import Annodoc.Proofs.Json.Members
import Annodoc.Proofs.Catalog.PublicView
import Annodoc.Proofs.Catalog.Rearrangement
import Annodoc.Proofs.Catalog.Resolution
import Annodoc.Proofs.Comment.Messages
import Annodoc.Proofs.Catalog.ReportLines
import Annodoc.Proofs.Comment.Composition
import Annodoc.Proofs.Project.Loading
import Annodoc.Proofs.Project.PathOrder
import Annodoc.Proofs.FileSystem.Written
import Annodoc.Proofs.CommandLine.Strictness
import Annodoc.Proofs.CommandLine.Runs
import Annodoc.Proofs.Text.Boundaries
import Annodoc.Proofs.Grammar.Offsets
import Annodoc.Proofs.LuaType.Offsets
import Annodoc.Proofs.LuaType.OffsetRules
import Annodoc.Proofs.LuaType.OffsetTypes
import Annodoc.Proofs.Comment.Offsets
import Annodoc.Proofs.Comment.OffsetBlocks
import Annodoc.Proofs.Comment.Boundaries
import Annodoc.Proofs.LuaType.Limits
import Annodoc.Proofs.Comment.Limits
import Annodoc.Proofs.Comment.ScopeFallback
import Annodoc.Proofs.LuaType.ViablePrefix
import Annodoc.Proofs.Comment.WrittenAlias
import Annodoc.Proofs.Comment.Declarations
import Annodoc.Proofs.Comment.Indentation
import Annodoc.Proofs.FileSystem.Spelling
import Annodoc.Proofs.Glob.Below
import Annodoc.Proofs.Glob.Descent
import Annodoc.Proofs.Glob.Escaped
import Annodoc.Proofs.Project.Directory
import Annodoc.Proofs.Project.Listing
