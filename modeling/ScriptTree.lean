import ScriptTree.CommandLine
import ScriptTree.CommandLine.Arguments
import ScriptTree.CommandLine.Help
import ScriptTree.Decimal.Shortest
import ScriptTree.Json
import ScriptTree.Main
import ScriptTree.Node
import ScriptTree.Node.Build
import ScriptTree.Node.Fields
import ScriptTree.Node.Fold
import ScriptTree.Node.Json
import ScriptTree.Node.Location
import ScriptTree.Parse
import ScriptTree.Parse.Cursor
import ScriptTree.Parse.Error
import ScriptTree.Parse.Expression
import ScriptTree.Parse.Function
import ScriptTree.Parse.Rule
import ScriptTree.Parse.Statement
import ScriptTree.Print
import ScriptTree.Print.Options
import ScriptTree.Print.Precedence
import ScriptTree.Print.Writer
import ScriptTree.Proofs.Node.Bare
import ScriptTree.Proofs.Node.Children
import ScriptTree.Proofs.Node.Lens
import ScriptTree.Proofs.Node.Nesting
import ScriptTree.Proofs.Node.Preorder
import ScriptTree.Proofs.Parse.Finishes
import ScriptTree.Proofs.Parse.Finishes.Expression
import ScriptTree.Proofs.Parse.Finishes.Statement
import ScriptTree.Proofs.Parse.Follows
import ScriptTree.Proofs.Parse.Follows.Expression
import ScriptTree.Proofs.Parse.Follows.Statement
import ScriptTree.Proofs.Parse.Grouping
import ScriptTree.Proofs.Parse.Implied
import ScriptTree.Proofs.Parse.Legality
import ScriptTree.Proofs.Parse.Parts
import ScriptTree.Proofs.Parse.Reads
import ScriptTree.Proofs.Parse.Role
import ScriptTree.Proofs.Parse.Semicolons
import ScriptTree.Proofs.Parse.Signs
import ScriptTree.Proofs.Parse.Soundness
import ScriptTree.Proofs.Parse.Spacing
import ScriptTree.Proofs.Parse.Balance
import ScriptTree.Proofs.Parse.Nesting
import ScriptTree.Proofs.Parse.Spans
import ScriptTree.Proofs.Parse.Spans.Expression
import ScriptTree.Proofs.Parse.Spans.Statement
import ScriptTree.Proofs.Parse.Termination
import ScriptTree.Proofs.Parse.Wording
import ScriptTree.Proofs.Parse.Wording.Expression
import ScriptTree.Proofs.Parse.Wording.Statement
import ScriptTree.Proofs.Parse.Yields
import ScriptTree.Proofs.Scope.Around
import ScriptTree.Proofs.Scope.Build
import ScriptTree.Proofs.Scope.Collecting
import ScriptTree.Proofs.Scope.Declares
import ScriptTree.Proofs.Scope.FirstDeclarations
import ScriptTree.Proofs.Scope.Ledger
import ScriptTree.Proofs.Scope.Queries
import ScriptTree.Proofs.Scope.Resolution
import ScriptTree.Proofs.Token.Escaping
import ScriptTree.Proofs.Token.Extent
import ScriptTree.Proofs.Token.Balance
import ScriptTree.Proofs.Token.Sift
import ScriptTree.Proofs.Token.Tiling
import ScriptTree.Proofs.Token.Unclosed
import ScriptTree.Proofs.Walk.Asking
import ScriptTree.Proofs.Walk.Contract
import ScriptTree.Proofs.Walk.Guests
import ScriptTree.Proofs.Walk.Recording
import ScriptTree.Proofs.Walk.Steps
import ScriptTree.Proofs.Walk.Tour
import ScriptTree.Proofs.Walk.Visited
import ScriptTree.Span
import ScriptTree.Text.Character
import ScriptTree.Text.Letter
import ScriptTree.Text.Numeral
import ScriptTree.Text.Quoted
import ScriptTree.Text.Unseen
import ScriptTree.Text.Width
import ScriptTree.Token
import ScriptTree.Token.Lexeme
import ScriptTree.Token.Listing
import ScriptTree.Token.Placement
import ScriptTree.Token.Scanner
import ScriptTree.Vocabulary.Keyword
import ScriptTree.Vocabulary.Operator
import ScriptTree.Vocabulary.Special
import ScriptTree.Walk
import ScriptTree.Walk.Scope
import ScriptTree.Walk.Visitor
import ScriptTree.Proofs.Parse.Spells.Operand
import ScriptTree.Proofs.Parse.Spells.Primary
import ScriptTree.Proofs.Parse.Spells.Expression
import ScriptTree.Proofs.Parse.Spells.Statement
import ScriptTree.Proofs.Parse.Spells.Body
import ScriptTree.Proofs.Token.Rescan
import ScriptTree.Proofs.Print.Pen
import ScriptTree.Proofs.Print.Spells
import ScriptTree.Proofs.Print.Pieces
import ScriptTree.Proofs.Print.Parts
import ScriptTree.Proofs.Print.Expression
import ScriptTree.Proofs.Print.Operations
import ScriptTree.Proofs.Print.Statement
import ScriptTree.Proofs.Print.Resembles
import ScriptTree.Proofs.Print.Restyled
import ScriptTree.Proofs.Print.Wording
import ScriptTree.Proofs.Print.RoundTrip
import ScriptTree.Proofs.Token.Position
import ScriptTree.Proofs.Print.Kept
import ScriptTree.Proofs.Print.Layout
import ScriptTree.Proofs.Print.Braces
import ScriptTree.Proofs.Print.Settled
import ScriptTree.Proofs.Print.Opening
import ScriptTree.Proofs.Node.Frame
import ScriptTree.Proofs.Token.Moved
import ScriptTree.Proofs.Token.Sequence
import ScriptTree.Proofs.Token.Range
import ScriptTree.Proofs.Token.StringLiteral
import ScriptTree.Proofs.Json
import ScriptTree.Proofs.Node.Json
import ScriptTree.Proofs.Token.Heads
import ScriptTree.Proofs.Token.Recut
import ScriptTree.Proofs.Token.Interposed
