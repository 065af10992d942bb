import RandomTables.Collection
import RandomTables.Collection.Directory
import RandomTables.Collection.Error
import RandomTables.Collection.Generate
import RandomTables.Collection.Prepared
import RandomTables.Decimal.Binary
import RandomTables.Decimal.Layout
import RandomTables.Decimal.Percent
import RandomTables.Decimal.Reading
import RandomTables.Decimal.Shortest
import RandomTables.Diagnostic
import RandomTables.Diagnostic.Excerpt
import RandomTables.Diagnostic.LineTable
import RandomTables.Main
import RandomTables.Modifier
import RandomTables.Program
import RandomTables.Program.Expectation
import RandomTables.Program.OfSource
import RandomTables.Program.Reader.Basic
import RandomTables.Program.Reader.Expression
import RandomTables.Program.Reader.Rule
import RandomTables.Program.Reader.Table
import RandomTables.Random.Draw
import RandomTables.Random.Words
import RandomTables.Report.Distribution
import RandomTables.Report.TokenListing
import RandomTables.Selection
import RandomTables.Span
import RandomTables.Text.Blank
import RandomTables.Text.Case
import RandomTables.Text.Case.Cased
import RandomTables.Text.Case.Lower
import RandomTables.Text.Case.Shift
import RandomTables.Text.Case.Upper
import RandomTables.Text.CodeRanges
import RandomTables.Text.Console
import RandomTables.Text.Letter
import RandomTables.Text.Lines
import RandomTables.Text.Numeral
import RandomTables.Text.Padding
import RandomTables.Text.Printable
import RandomTables.Text.Quoted
import RandomTables.Text.Styled
import RandomTables.Text.Width
import RandomTables.Text.Word
import RandomTables.Token
import RandomTables.Token.Fault
import RandomTables.Token.Scan
import RandomTables.Token.Step
import RandomTables.Proofs.Text.Word
import RandomTables.Proofs.Token.Run
import RandomTables.Proofs.Token.Lexeme
import RandomTables.Proofs.Token.Reading
import RandomTables.Proofs.Token.Tiling
import RandomTables.Proofs.Program.Expression
import RandomTables.Proofs.Program.Rule
import RandomTables.Proofs.Program.Table
import RandomTables.Proofs.Program.Derivation
import RandomTables.Proofs.Token.Shape
import RandomTables.Proofs.Program.Content
import RandomTables.Proofs.Decimal.Numeral
import RandomTables.Proofs.Decimal.Packing
import RandomTables.Proofs.Decimal.Order
import RandomTables.Proofs.Decimal.Rounding
import RandomTables.Proofs.Decimal.Nearest
import RandomTables.Proofs.Decimal.Arithmetic
import RandomTables.Proofs.Program.Printing
import RandomTables.Proofs.Program.RoundTrip
import RandomTables.Proofs.Token.Ahead
import RandomTables.Proofs.Token.Insertion
import RandomTables.Proofs.Token.Site
import RandomTables.Proofs.Program.Alike
import RandomTables.Proofs.Program.Trivia
import RandomTables.Proofs.Token.Shift
import RandomTables.Proofs.Token.Seam
import RandomTables.Proofs.Token.Part
import RandomTables.Proofs.Token.Overlong
import RandomTables.Proofs.Program.Shift
import RandomTables.Proofs.Program.Joined
import RandomTables.Proofs.Program.Slice
import RandomTables.Proofs.Program.Failure
import RandomTables.Proofs.Program.Outcome
import RandomTables.Proofs.Diagnostic.Line
import RandomTables.Proofs.Diagnostic.Place
import RandomTables.Proofs.Diagnostic.Message
import RandomTables.Proofs.Diagnostic.Row
import RandomTables.Proofs.Diagnostic.Caret
import RandomTables.Proofs.Selection
import RandomTables.Proofs.Collection.Declarations
import RandomTables.Proofs.Collection.Loading
import RandomTables.Proofs.Collection.References
import RandomTables.Proofs.Collection.Generation
import RandomTables.Proofs.Collection.GiantDie
import RandomTables.Proofs.Collection.Answers
import RandomTables.Proofs.Collection.Reachable
import RandomTables.Proofs.Collection.Tower
import RandomTables.Proofs.Collection.Settled
import RandomTables.Proofs.Collection.Termination
import RandomTables.Proofs.Collection.Expansion
import RandomTables.Proofs.Program.Weight
import RandomTables.Proofs.Collection.Sampling
import RandomTables.Proofs.Text.Visible
import RandomTables.Proofs.Collection.Trimmed
import RandomTables.Proofs.Token.LineEnd
import RandomTables.Proofs.Token.Returns
import RandomTables.Proofs.Program.LineEnds
import RandomTables.Proofs.Program.Trimming
import RandomTables.Proofs.Program.Slashes
import RandomTables.Proofs.Program.Canonical
import RandomTables.Proofs.Program.Lookahead
import RandomTables.Proofs.Program.Completion
import RandomTables.Proofs.Program.Earliest
import RandomTables.Proofs.Token.Mode
import RandomTables.Proofs.Collection.Redeclared
import RandomTables.Proofs.Diagnostic.Located
import RandomTables.Proofs.Token.Agreement
import RandomTables.Proofs.Token.Mark
import RandomTables.Proofs.Program.Kinds
import RandomTables.Proofs.Program.Layout
import RandomTables.Proofs.Program.RuleEnd
import RandomTables.Proofs.Program.RuleComment
import RandomTables.Proofs.Program.Readable
import RandomTables.Proofs.Program.FlagList
import RandomTables.Proofs.Diagnostic.Highlight
import RandomTables.Proofs.Text.Quoted
import RandomTables.Proofs.Report.Listing
import RandomTables.Proofs.Text.Escapes
import RandomTables.Proofs.Text.Console
import RandomTables.Proofs.Text.Terminal
import RandomTables.Proofs.Diagnostic.Colours
import RandomTables.Proofs.Decimal.Percent
import RandomTables.Proofs.Report.Columns
import RandomTables.Proofs.Report.Distribution
import RandomTables.Proofs.Program.Cursor
import RandomTables.Proofs.Program.Ending
import RandomTables.Proofs.Diagnostic.Coordinates
import RandomTables.Proofs.Token.Scanner
import RandomTables.Proofs.Token.Sentinel
import RandomTables.Proofs.Token.Stride
import RandomTables.Proofs.Token.Progress
