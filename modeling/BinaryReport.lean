import BinaryReport.Main
import BinaryReport.Service.App
import BinaryReport.Proofs.Text.Digits
import BinaryReport.Proofs.Address.Text
import BinaryReport.Proofs.Json.Strings
import BinaryReport.Proofs.Json.Pretty
import BinaryReport.Proofs.Json.Scan
import BinaryReport.Proofs.Json.Mention
import BinaryReport.Proofs.Report.Records
import BinaryReport.Proofs.Report.Envelope
import BinaryReport.Proofs.Command.Output
import BinaryReport.Proofs.Binary64.Rounding
import BinaryReport.Proofs.Program.Layout
import BinaryReport.Proofs.Program.Names
import BinaryReport.Proofs.Program.Functions
import BinaryReport.Proofs.Engine.Walk
import BinaryReport.Proofs.Engine.History
import BinaryReport.Proofs.Engine.Layout
import BinaryReport.Proofs.Engine.Frame
import BinaryReport.Proofs.Decompiler.Call
import BinaryReport.Proofs.Report.Build
import BinaryReport.Proofs.Report.Stages
import BinaryReport.Proofs.Report.Coherence
import BinaryReport.Proofs.Service.Work
import BinaryReport.Proofs.Service.Answers
import BinaryReport.Proofs.Service.Session
import BinaryReport.Proofs.Service.Moves
import BinaryReport.Proofs.Service.Freshness
import BinaryReport.Proofs.Service.Serial
import BinaryReport.Proofs.Queue.Refinement
import BinaryReport.Proofs.Check.Places
import BinaryReport.Proofs.Snapshot.Places
import BinaryReport.Proofs.Program.Entries
import BinaryReport.Proofs.Engine.Refusal
import BinaryReport.Proofs.Address.RangeSet
import BinaryReport.Proofs.Program.Placement
import BinaryReport.Proofs.Program.Loaded
import BinaryReport.Proofs.Program.WellFormed
import BinaryReport.Proofs.Program.Reordered
import BinaryReport.Proofs.Report.Alike
import BinaryReport.Proofs.Program.Entry
import BinaryReport.Proofs.Tool.Run
import BinaryReport.Proofs.Tool.Replay
import BinaryReport.Proofs.Tool.Agreement
import BinaryReport.Proofs.Engine.Renames
import BinaryReport.Proofs.Report.Symbols
import BinaryReport.Proofs.Command.Writes
import BinaryReport.Proofs.Program.Extent
import BinaryReport.Proofs.Engine.Placement
import BinaryReport.Proofs.Service.Account
import BinaryReport.Proofs.Service.Formats
import BinaryReport.Proofs.Address.Canonical
import BinaryReport.Proofs.Report.Bodies
import BinaryReport.Proofs.Engine.Disassembly
import BinaryReport.Proofs.Engine.Decompilation
import BinaryReport.Proofs.Decompiler.Settlement
import BinaryReport.Proofs.Engine.Settlement
import BinaryReport.Proofs.DataType.Canonical
import BinaryReport.Proofs.Engine.Retyping
import BinaryReport.Proofs.Program.Surrounding
import BinaryReport.Proofs.Report.Renamed
import BinaryReport.Proofs.Report.EntryFunction
import BinaryReport.Proofs.Text.Numerals
import BinaryReport.Proofs.Text.Words
import BinaryReport.Proofs.DataType.Grammar
import BinaryReport.Proofs.DataType.Acceptance
import BinaryReport.Proofs.Address.Grammar
import BinaryReport.Proofs.Snapshot.ByteText
import BinaryReport.Proofs.Engine.Bytes
import BinaryReport.Proofs.Report.Listing
import BinaryReport.Proofs.Report.Tables
import BinaryReport.Proofs.Command.Options
import BinaryReport.Proofs.Command.Placement
import BinaryReport.Proofs.Report.DecompilerView
import BinaryReport.Proofs.Limits.Checks
import BinaryReport.Proofs.Limits.Services
import BinaryReport.Proofs.Limits.Validation
import BinaryReport.Proofs.Command.Requests
import BinaryReport.Proofs.Service.FrontEnds
import BinaryReport.Proofs.Check.Schema
import BinaryReport.Proofs.Check.Implements
import BinaryReport.Proofs.Check.Acceptance
import BinaryReport.Proofs.Snapshot.Form
import BinaryReport.Proofs.Snapshot.Normal
