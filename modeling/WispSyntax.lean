import WispSyntax.Text.Letter
import WispSyntax.Text.Numeral
import WispSyntax.Text.Blank
import WispSyntax.Text.Column
import WispSyntax.Text.Lines
import WispSyntax.Location
import WispSyntax.Kind
import WispSyntax.Budget
import WispSyntax.Node.Walk
import WispSyntax.Node.Outline
import WispSyntax.Source.Reads
import WispSyntax.Token.Lexer
import WispSyntax.Program
import WispSyntax.Screen.Pane
import WispSyntax.Viewer.Highlight
import WispSyntax.Viewer.Row
import WispSyntax.Viewer
import WispSyntax.Main
import WispSyntax.Proofs.Transition
import WispSyntax.Proofs.Reading
import WispSyntax.Proofs.Spelling
import WispSyntax.Proofs.Numerals
import WispSyntax.Proofs.Lexing
import WispSyntax.Proofs.Lexemes
import WispSyntax.Proofs.WellFormed
import WispSyntax.Proofs.Shape
import WispSyntax.Proofs.Traversal
import WispSyntax.Proofs.Pieces
import WispSyntax.Proofs.Alignment
import WispSyntax.Proofs.Places
import WispSyntax.Proofs.Characters
import WispSyntax.Proofs.Words
import WispSyntax.Proofs.Rereading
import WispSyntax.Proofs.Printing
import WispSyntax.Proofs.Legibility
import WispSyntax.Proofs.Rebuilding
import WispSyntax.Proofs.Enclosing
import WispSyntax.Proofs.RoundTrip
import WispSyntax.Proofs.Extent
import WispSyntax.Proofs.Punctuation
import WispSyntax.Proofs.Nesting
import WispSyntax.Proofs.Relocation
import WispSyntax.Proofs.Renumbering
import WispSyntax.Proofs.Composition
import WispSyntax.Proofs.Spacing
import WispSyntax.Proofs.FreeForm
import WispSyntax.Proofs.Supplier
import WispSyntax.Proofs.Descent
import WispSyntax.Proofs.Balance
import WispSyntax.Proofs.Outcome
import WispSyntax.Proofs.Hosting
import WispSyntax.Proofs.Brackets
import WispSyntax.Proofs.Agreement
import WispSyntax.Proofs.Resumption
import WispSyntax.Proofs.LineEnds
import WispSyntax.Proofs.Omission
import WispSyntax.Proofs.Handover
import WispSyntax.Proofs.Refusals
import WispSyntax.Proofs.Breakdown
import WispSyntax.Proofs.Transport
import WispSyntax.Proofs.Folding
import WispSyntax.Proofs.Navigation
import WispSyntax.Proofs.Preorder
import WispSyntax.Proofs.Hiding
import WispSyntax.Proofs.Message
import WispSyntax.Proofs.Drawing
import WispSyntax.Proofs.Scrolling
import WispSyntax.Proofs.Quotation
import WispSyntax.Proofs.WordSpans
import WispSyntax.Proofs.Colouring
import WispSyntax.Proofs.Cutting
import WispSyntax.Proofs.Captions
import WispSyntax.Proofs.Outlines
import WispSyntax.Proofs.FaultPlaces
import WispSyntax.Proofs.Scopes
import WispSyntax.Proofs.Census
import WispSyntax.Proofs.Separators
import WispSyntax.Proofs.Invocation
import WispSyntax.Proofs.Caret
import WispSyntax.Proofs.Digits
import WispSyntax.Proofs.Diagnosis
import WispSyntax.Proofs.Cursor
import WispSyntax.Proofs.Progress
import WispSyntax.Proofs.Runs
import WispSyntax.Proofs.Scanning
import WispSyntax.Proofs.Tracking
import WispSyntax.Proofs.Routines
