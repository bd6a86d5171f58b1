import Offside.Config
import Offside.Convention
import Offside.Cursor
import Offside.Datum
import Offside.Diagnostic
import Offside.Diagnostic.Report
import Offside.Document
import Offside.Document.Edit
import Offside.Grammar.Definition
import Offside.Grammar.Expr
import Offside.Grammar.Extension
import Offside.Grammar.Level
import Offside.Grammar.Operand
import Offside.Grammar.Recovery
import Offside.Grammar.Simple
import Offside.Grammar.Stmt
import Offside.Grammar.TypeExpr
import Offside.Layout.Indentation
import Offside.Layout.Levels
import Offside.Layout.Snapshot
import Offside.Lexeme
import Offside.Lexeme.Number
import Offside.Lexeme.Quotation
import Offside.Literal.Binary64
import Offside.Literal.Contents
import Offside.Literal.Integer
import Offside.Rule
import Offside.Scan
import Offside.Span
import Offside.Text.Blank
import Offside.Text.Bytes
import Offside.Text.Lines
import Offside.Text.Printable
import Offside.Text.Quoted
import Offside.Token
import Offside.Token.Kind
import Offside.Tree.Expr
import Offside.Tree.Pattern
import Offside.Tree.Spans
import Offside.Tree.Stmt
import Offside.Tree.TypeExpr
import Offside.Proofs.Simulation
import Offside.Proofs.Span
import Offside.Proofs.Diagnostic.Order
import Offside.Proofs.Layout.Levels
import Offside.Proofs.Lexeme.Locality
import Offside.Proofs.Text.Cut
import Offside.Proofs.Tree.MapSpans
import Offside.Proofs.Tree.Relocate
import Offside.Proofs.Seam
import Offside.Proofs.Seam.Rule
import Offside.Proofs.Seam.Expr
import Offside.Proofs.Seam.Header
import Offside.Proofs.Seam.Simple
import Offside.Proofs.Seam.Recovery
import Offside.Proofs.Seam.Progress
import Offside.Proofs.Seam.Block
import Offside.Proofs.Seam.Stmt
import Offside.Proofs.Seam.Stream
import Offside.Proofs.Seam.Parse
import Offside.Proofs.Scan.Reaches
import Offside.Proofs.Scan.Append
import Offside.Proofs.Scan.Moved
import Offside.Proofs.Scan.Shape
import Offside.Proofs.Scan.Columns
import Offside.Proofs.Scan.Extent
import Offside.Proofs.Scan.Flush
import Offside.Proofs.Document.Append
import Offside.Proofs.Moves
import Offside.Proofs.Moves.Expr
import Offside.Proofs.Moves.Header
import Offside.Proofs.Extent
import Offside.Proofs.Extent.Expr
import Offside.Proofs.Reading
import Offside.Proofs.Reading.Shape
import Offside.Proofs.Reading.Expr
import Offside.Proofs.Writing
import Offside.Proofs.Writing.Enclosed
import Offside.Proofs.Writing.Boundary
import Offside.Proofs.Writing.Operand
import Offside.Proofs.Writing.Operation
import Offside.Proofs.Writing.Expr
import Offside.Proofs.Writing.Plain
import Offside.Proofs.Writing.Type
import Offside.Proofs.Writing.Target
import Offside.Proofs.Writing.Listing
import Offside.Proofs.Writing.Line
import Offside.Proofs.Writing.Simple
import Offside.Proofs.Writing.Header
import Offside.Proofs.Extent.Simple
import Offside.Proofs.Blocks
import Offside.Proofs.Moves.Stmt
import Offside.Proofs.Writing.Block
import Offside.Proofs.Writing.Stmt
import Offside.Proofs.Blocks.Recovery
import Offside.Proofs.Extent.Stmt
import Offside.Proofs.Scan.Order
import Offside.Proofs.Scan.Token
import Offside.Proofs.Scan.Resume
import Offside.Proofs.Scan.Stop
import Offside.Proofs.Scan.Lossless
import Offside.Proofs.Seam.Joint
import Offside.Proofs.Document.Boundary
import Offside.Proofs.Document.Kept
import Offside.Proofs.Document.Resume
import Offside.Proofs.Document.Reparse
import Offside.Proofs.Lexeme.Spelling
import Offside.Proofs.Scan.Line
import Offside.Proofs.Scan.Outline
import Offside.Proofs.Scan.Layout
import Offside.Proofs.Lexeme.Line
import Offside.Proofs.Scan.Mark
import Offside.Proofs.Tree.Valid
import Offside.Proofs.Validity
import Offside.Proofs.Validity.Simple
import Offside.Proofs.Building
import Offside.Proofs.Validity.Stmt
import Offside.Proofs.Tree.Region
import Offside.Proofs.Nesting
import Offside.Proofs.Nesting.Expr
import Offside.Proofs.Nesting.Simple
import Offside.Proofs.Nesting.Stmt
import Offside.Proofs.Document.Nested
import Offside.Proofs.Forward
import Offside.Proofs.Forward.Rules
import Offside.Proofs.Forward.Loop
import Offside.Proofs.Forward.Stmt
import Offside.Proofs.Termination
import Offside.Proofs.Termination.Stmt
import Offside.Proofs.Termination.Grammar
import Offside.Proofs.Scan.Word
import Offside.Proofs.Annotation
import Offside.Proofs.Annotation.Agree
import Offside.Proofs.Annotation.Written
import Offside.Proofs.Scan.Interior
import Offside.Proofs.Tree.Nodes
import Offside.Proofs.Faults
import Offside.Proofs.Annotation.Conditional
import Offside.Proofs.Literal
import Offside.Proofs.Linewise
import Offside.Proofs.Linewise.Rules
import Offside.Proofs.Linewise.Stmt
import Offside.Proofs.Linewise.Suite
import Offside.Proofs.Literal.Closing
import Offside.Proofs.Document.CommentLine
import Offside.Proofs.Conventions
import Offside.Proofs.Layout.Scaling
import Offside.Proofs.Document.TabWidth
import Offside.Proofs.Tree.Spanwise
import Offside.Proofs.Tree.Shift
import Offside.Proofs.Text.Place
import Offside.Proofs.Literal.Integer
import Offside.Proofs.Assignment
import Offside.Proofs.Tree.Moved
import Offside.Proofs.Scan.Parted
import Offside.Proofs.Document.Stretch
import Offside.Proofs.Document.Fresh
import Offside.Proofs.Document.Step
import Offside.Proofs.Document.Session
