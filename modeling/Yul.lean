import Yul.Span
import Yul.Text.Numeral
import Yul.Text.Utf8
import Yul.Word
import Yul.Evm.Version
import Yul.Effects
import Yul.Token.Reader
import Yul.Token.Listing
import Yul.Text.Width
import Yul.NameTable
import Yul.Literal
import Yul.Object
import Yul.Parse.Object
import Yul.Problem
import Yul.Record
import Yul.Program
import Yul.CommandLine.Execute
import Yul.Main
import Yul.Proofs.Run.Checks
import Yul.Proofs.Run.Confined
import Yul.Proofs.Run.Faults
import Yul.Proofs.Effects.Account
import Yul.Proofs.Effects.Regions
import Yul.Proofs.Run.Models
import Yul.Proofs.Scope.Shadowing
import Yul.Proofs.Scope.Active
import Yul.Proofs.Scope.Mirror
import Yul.Proofs.Check.Logic
import Yul.Proofs.Check.Labels
import Yul.Proofs.Check.Exprs
import Yul.Proofs.Check.Stmts
import Yul.Proofs.Check.Blocks
import Yul.Proofs.WellFormed.Exact
import Yul.Proofs.Effects.Reach
import Yul.Proofs.Effects.Summary
import Yul.Proofs.Effects.Definitions
import Yul.Proofs.Effects.Exact
import Yul.Proofs.Parse.Grammar
import Yul.Proofs.Parse.Reading
import Yul.Proofs.Parse.Sound
import Yul.Proofs.Parse.Complete
import Yul.Proofs.Parse.CompleteBlocks
import Yul.Proofs.Parse.Exact
import Yul.Proofs.Parse.Faultless
import Yul.Proofs.Effects.Total
import Yul.Proofs.Check.Performs
import Yul.Proofs.Effects.Overall
import Yul.Proofs.Erase.Code
import Yul.Proofs.Erase.Result
import Yul.Proofs.Exchange.Relation
import Yul.Proofs.Exchange.Result
import Yul.Proofs.Parallel.Versions
import Yul.Proofs.Token.Munch
import Yul.Proofs.Token.Tiles
import Yul.Proofs.Places.Code
import Yul.Proofs.Places.Events
import Yul.Proofs.Effects.Coherent
import Yul.Proofs.Effects.LoopFree
import Yul.Proofs.Effects.Bounded
import Yul.Proofs.Places.Parser
import Yul.Proofs.Places.Fit
import Yul.Proofs.Layout.Gaps
import Yul.Proofs.Layout.Lexing
import Yul.Proofs.Layout.Result
import Yul.Proofs.Effects.Least
import Yul.Proofs.Run.Plain
import Yul.Proofs.Placement.Exact
import Yul.Proofs.Outside.Exact
import Yul.Proofs.Outside.Code
import Yul.Proofs.Outside.Notes
import Yul.Proofs.Session.Kept
import Yul.Proofs.Word.Wide
import Yul.Proofs.Word.Numerals
import Yul.Proofs.Word.Bytes
import Yul.Proofs.Word.Spelling
import Yul.Proofs.Word.Exact
import Yul.Proofs.Switch.Arms
import Yul.Proofs.Visit.Marks
import Yul.Proofs.Visit.Exprs
import Yul.Proofs.Visit.Exact
import Yul.Proofs.Switch.Exact
import Yul.Proofs.Recovery.Heads
import Yul.Proofs.Recovery.Reports
import Yul.Proofs.Recovery.Misfits
import Yul.Proofs.Recovery.Exact
import Yul.Proofs.Text.Lossy
import Yul.Proofs.Text.Escapes
import Yul.Proofs.Names.Paths
import Yul.Proofs.Names.Written
import Yul.Proofs.Prompt.Exact
import Yul.Proofs.Token.Lookahead
import Yul.Proofs.Scope.Nearest
import Yul.Proofs.Text.Literals
import Yul.Proofs.Places.Nested
import Yul.Proofs.Flow.Calls
import Yul.Proofs.Flow.Changes
