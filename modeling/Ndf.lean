import Ndf.Cancellation
import Ndf.Completion
import Ndf.Files.Store
import Ndf.Log
import Ndf.Main
import Ndf.Proofs.Token.Lossless
import Ndf.Proofs.Parser.Reaches
import Ndf.Proofs.Parser.Sound
import Ndf.Proofs.Parser.Progress
import Ndf.Proofs.Parser.Agree
import Ndf.Proofs.Parser.Levels
import Ndf.Proofs.Parser.Spans
import Ndf.Proofs.Parser.Coverage
import Ndf.Proofs.Concat.Twin
import Ndf.Proofs.Concat.Recovery
import Ndf.Proofs.Concat.Path
import Ndf.Proofs.Concat.Declaration
import Ndf.Proofs.Concat.Expression
import Ndf.Proofs.Concat.Tokens
import Ndf.Proofs.Concat.Colon
import Ndf.Proofs.Concat.Document
import Ndf.Proofs.Export.InRange
import Ndf.Proofs.MessagePack.Cut
import Ndf.Proofs.MessagePack.Record
import Ndf.Proofs.Export.RoundTrip
import Ndf.Proofs.Parser.Nesting
import Ndf.Proofs.Parser.Scene
import Ndf.Proofs.Parser.Accounts
import Ndf.Proofs.Parser.Explained
import Ndf.Proofs.Token.Slices
import Ndf.Proofs.Parser.Recursion
import Ndf.Proofs.Parser.Scans
import Ndf.Proofs.Parser.Finishes
import Ndf.Proofs.Tree.Bare
import Ndf.Proofs.Spacing.Blind
import Ndf.Proofs.Spacing.Grammar
import Ndf.Proofs.Spacing.Document
import Ndf.Proofs.Tree.Outline
import Ndf.Proofs.Nodes.Row
import Ndf.Proofs.Nodes.Lays
import Ndf.Proofs.Nodes.Grammar
import Ndf.Proofs.Nodes.Document
import Ndf.Proofs.Token.Position
import Ndf.Proofs.Nodes.Position
import Ndf.Proofs.Token.Braces
import Ndf.Proofs.Unfinished.Document
import Ndf.Proofs.Unfinished.Prefix
import Ndf.Proofs.Form.Document
import Ndf.Proofs.Tree.Met
import Ndf.Proofs.Nodes.Order
import Ndf.Proofs.Form.Operators
import Ndf.Proofs.Dump.Injective
import Ndf.Proofs.Parser.Limit
import Ndf.Proofs.Parser.Local
import Ndf.Proofs.Parser.Member
import Ndf.Proofs.Reference.Grammar
import Ndf.Proofs.Completion
import Ndf.Proofs.Token.Strings
import Ndf.Proofs.Parser.Once
import Ndf.Proofs.Report
import Ndf.Proofs.Parser.CalledOff
import Ndf.Proofs.Session.Memory
import Ndf.Proofs.Layout.Lines
import Ndf.Proofs.Commas.Grammar
import Ndf.Proofs.Layout.Document
