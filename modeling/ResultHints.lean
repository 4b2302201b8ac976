import ResultHints.Text.Bytes
import ResultHints.Text.Blank
import ResultHints.Text.Name
import ResultHints.Text.Quoted
import ResultHints.Fault
import ResultHints.Token.Enclosed
import ResultHints.Token.Scan
import ResultHints.Token.Stream
import ResultHints.Tree.Basic
import ResultHints.Tree.Location
import ResultHints.Syntax.Operator
import ResultHints.Syntax.Kind
import ResultHints.Syntax.Render
import ResultHints.Grammar.Cursor
import ResultHints.Grammar.Expression
import ResultHints.Grammar.Naming
import ResultHints.Grammar.Argument
import ResultHints.Grammar.Control
import ResultHints.Grammar.File
import ResultHints.Parser.Basic
import ResultHints.Parser.Expression
import ResultHints.Parser.Statement
import ResultHints.Parser.Procedure
import ResultHints.Document.Basic
import ResultHints.Document.Builder
import ResultHints.Document.Trivia
import ResultHints.Document.Navigation
import ResultHints.Facts.Analysis
import ResultHints.Hint.Basic
import ResultHints.Hint.Collect
import ResultHints.Settings
import ResultHints.Proofs.Tree.Each
import ResultHints.Proofs.Tree.Place
import ResultHints.Proofs.Tree.Graft
import ResultHints.Proofs.Tree.Outline
import ResultHints.Proofs.Text.CharSet
import ResultHints.Proofs.Text.Quoted
import ResultHints.Proofs.Token.First
import ResultHints.Proofs.Token.Rest
import ResultHints.Proofs.Token.Tiling
import ResultHints.Proofs.Token.Lossless
import ResultHints.Proofs.Token.Blank
import ResultHints.Proofs.Token.Join
import ResultHints.Proofs.Token.Respace
import ResultHints.Proofs.Token.Offset
import ResultHints.Proofs.Syntax.Relabel
import ResultHints.Proofs.Syntax.Record
import ResultHints.Proofs.Syntax.Render
import ResultHints.Proofs.Grammar.Phrase
import ResultHints.Proofs.Grammar.Reader
import ResultHints.Proofs.Grammar.Taken
import ResultHints.Proofs.Grammar.Frame
import ResultHints.Proofs.Grammar.FrameReader
import ResultHints.Proofs.Grammar.Carry.Expression
import ResultHints.Proofs.Grammar.Carry.Control
import ResultHints.Proofs.Grammar.Carry.Operand
import ResultHints.Proofs.Grammar.Carry.Statement
import ResultHints.Proofs.Grammar.First
import ResultHints.Proofs.Grammar.FileJoin
import ResultHints.Proofs.Grammar.Sound
import ResultHints.Proofs.Grammar.Declaration
import ResultHints.Proofs.Grammar.Layout
import ResultHints.Proofs.Grammar.Passed
import ResultHints.Proofs.Grammar.Alike.Cursor
import ResultHints.Proofs.Grammar.Alike.Reader
import ResultHints.Proofs.Grammar.Alike.Expression
import ResultHints.Proofs.Grammar.Alike.Statement
import ResultHints.Proofs.Grammar.Heads
import ResultHints.Proofs.Grammar.Numbering
import ResultHints.Proofs.Grammar.Spans
import ResultHints.Proofs.Document.Regular
import ResultHints.Proofs.Document.Children
import ResultHints.Proofs.Document.Extent
import ResultHints.Proofs.Document.Heads
import ResultHints.Proofs.Document.Breaks
import ResultHints.Proofs.Document.Nesting
import ResultHints.Proofs.Document.Join
import ResultHints.Proofs.Document.Trivia
import ResultHints.Proofs.Document.Part
import ResultHints.Proofs.Document.Ids
import ResultHints.Proofs.Document.Respace
import ResultHints.Proofs.Document.Builder
import ResultHints.Proofs.Document.Plan
import ResultHints.Proofs.Document.Traversal
import ResultHints.Proofs.Document.Dump
import ResultHints.Proofs.Parser.State
import ResultHints.Proofs.Parser.Reader
import ResultHints.Proofs.Parser.Expression
import ResultHints.Proofs.Parser.Statement
import ResultHints.Proofs.Parser.Discipline
import ResultHints.Proofs.Grammar.Worth.Reader
import ResultHints.Proofs.Grammar.Worth.Expression
import ResultHints.Proofs.Grammar.Worth.Statement
import ResultHints.Proofs.Parser.Count
import ResultHints.Proofs.Flow.Role
import ResultHints.Proofs.Flow.Step
import ResultHints.Proofs.Flow.Path
import ResultHints.Proofs.Flow.Run
import ResultHints.Proofs.Flow.Below
import ResultHints.Proofs.Flow.Relabel
import ResultHints.Proofs.Flow.Wrapper
import ResultHints.Proofs.Facts.Sharing
import ResultHints.Proofs.Facts.Kept
import ResultHints.Proofs.Facts.Requests
import ResultHints.Proofs.Facts.Counted
import ResultHints.Proofs.Facts.Handles
import ResultHints.Proofs.Hint.Target
import ResultHints.Proofs.Hint.Own
import ResultHints.Proofs.Hint.Result
import ResultHints.Proofs.Hint.Nested
import ResultHints.Proofs.Hint.Range
import ResultHints.Proofs.Hint.Modes
import ResultHints.Proofs.Hint.Part
import ResultHints.Proofs.Hint.Join
import ResultHints.Proofs.Hint.Respace
import ResultHints.Proofs.Hint.Jumps
import ResultHints.Proofs.Hint.Chain
import ResultHints.Proofs.Hint.Label
import ResultHints.Proofs.Document.Lines
import ResultHints.Proofs.Document.Twin
import ResultHints.Proofs.Grammar.IfElse
import ResultHints.Proofs.Document.IfElse
import ResultHints.Proofs.Hint.Moved
import ResultHints.Proofs.Token.Name
import ResultHints.Proofs.Token.Cut
import ResultHints.Proofs.Token.Split
import ResultHints.Proofs.Token.Apart
import ResultHints.Proofs.Token.Number
import ResultHints.Proofs.Token.Template
import ResultHints.Proofs.Hint.Name
import ResultHints.Proofs.Syntax.Grouping
import ResultHints.Proofs.Grammar.Grouping
import ResultHints.Proofs.Grammar.Made
import ResultHints.Proofs.Document.Made
import ResultHints.Proofs.Grammar.Ahead
import ResultHints.Proofs.Document.Branch
import ResultHints.Proofs.Grammar.Entries
import ResultHints.Proofs.Document.Entries
import ResultHints.Proofs.Document.Links
import ResultHints.Proofs.Parser.Rule
import ResultHints.Proofs.Parser.Gains
import ResultHints.Proofs.Parser.Body
import ResultHints.Proofs.Parser.Termination
