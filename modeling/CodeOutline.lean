import CodeOutline.Analysis.Result
import CodeOutline.CommandLine.Parse
import CodeOutline.CommandLine.Run
import CodeOutline.Delimiter.Block
import CodeOutline.Delimiter.Boundary
import CodeOutline.Delimiter.Split
import CodeOutline.Diagnostic
import CodeOutline.Execution.Command
import CodeOutline.Execution.Report
import CodeOutline.Execution.Sandbox
import CodeOutline.Grammar.Action
import CodeOutline.Grammar.Automaton
import CodeOutline.Grammar.Production
import CodeOutline.Grammar.Rule
import CodeOutline.Grammar.Table
import CodeOutline.Json.Basic
import CodeOutline.Json.Reader
import CodeOutline.Language
import CodeOutline.Main
import CodeOutline.Outline.Node
import CodeOutline.Outline.Program
import CodeOutline.Outline.Statement
import CodeOutline.Parsing.Lexer
import CodeOutline.Parsing.Parser
import CodeOutline.Parsing.Phrase
import CodeOutline.Parsing.Preference
import CodeOutline.Parsing.Recovery
import CodeOutline.Parsing.Reduction
import CodeOutline.Parsing.Stack
import CodeOutline.Proofs.Checked.Access
import CodeOutline.Proofs.Checked.Boundary
import CodeOutline.Proofs.Checked.Level
import CodeOutline.Proofs.Checked.Masked
import CodeOutline.Proofs.Checked.Reading
import CodeOutline.Proofs.Checked.Recognition
import CodeOutline.Proofs.Checked.Shape
import CodeOutline.Proofs.Checked.Statement
import CodeOutline.Proofs.Concatenation
import CodeOutline.Proofs.Delimiter.Aligned
import CodeOutline.Proofs.Delimiter.Balance
import CodeOutline.Proofs.Delimiter.Concluded
import CodeOutline.Proofs.Delimiter.Enclosed
import CodeOutline.Proofs.Delimiter.Found
import CodeOutline.Proofs.Delimiter.Heads
import CodeOutline.Proofs.Delimiter.Nesting
import CodeOutline.Proofs.Delimiter.Outside
import CodeOutline.Proofs.Delimiter.Piece
import CodeOutline.Proofs.Delimiter.Plain
import CodeOutline.Proofs.Delimiter.Scan
import CodeOutline.Proofs.Delimiter.Split
import CodeOutline.Proofs.Delimiter.Start
import CodeOutline.Proofs.Execution.Message
import CodeOutline.Proofs.Execution.Report
import CodeOutline.Proofs.Execution.Script
import CodeOutline.Proofs.Fault
import CodeOutline.Proofs.Json.Compact
import CodeOutline.Proofs.Json.Read
import CodeOutline.Proofs.LineEnding
import CodeOutline.Proofs.Noninterference
import CodeOutline.Proofs.Order
import CodeOutline.Proofs.Outline.Agreement
import CodeOutline.Proofs.Outline.Aligned
import CodeOutline.Proofs.Outline.Arranged
import CodeOutline.Proofs.Outline.Budget
import CodeOutline.Proofs.Outline.Concluded
import CodeOutline.Proofs.Outline.Content
import CodeOutline.Proofs.Outline.Depth
import CodeOutline.Proofs.Outline.Described
import CodeOutline.Proofs.Outline.Exclusive
import CodeOutline.Proofs.Outline.Grammar
import CodeOutline.Proofs.Outline.Induction
import CodeOutline.Proofs.Outline.Name
import CodeOutline.Proofs.Outline.Nested
import CodeOutline.Proofs.Outline.Opening
import CodeOutline.Proofs.Outline.Part
import CodeOutline.Proofs.Outline.Path
import CodeOutline.Proofs.Outline.Reading
import CodeOutline.Proofs.Outline.Reported
import CodeOutline.Proofs.Outline.Returned
import CodeOutline.Proofs.Outline.Sequence
import CodeOutline.Proofs.Outline.Size
import CodeOutline.Proofs.Outline.Tidy
import CodeOutline.Proofs.Outline.Variable
import CodeOutline.Proofs.Parsing
import CodeOutline.Proofs.Program.Declaration
import CodeOutline.Proofs.Program.Declared
import CodeOutline.Proofs.Program.Expression
import CodeOutline.Proofs.Program.Heading
import CodeOutline.Proofs.Program.Heads
import CodeOutline.Proofs.Program.Local
import CodeOutline.Proofs.Program.Member
import CodeOutline.Proofs.Program.Parameter
import CodeOutline.Proofs.Program.Print
import CodeOutline.Proofs.Program.Recognition
import CodeOutline.Proofs.Program.Roundtrip
import CodeOutline.Proofs.Program.Symbols
import CodeOutline.Proofs.Program.Syntax
import CodeOutline.Proofs.Program.Tree
import CodeOutline.Proofs.Program.Verbatim
import CodeOutline.Proofs.Related
import CodeOutline.Proofs.Render.Drawing
import CodeOutline.Proofs.Render.Indented
import CodeOutline.Proofs.Render.Row
import CodeOutline.Proofs.Render.Statement
import CodeOutline.Proofs.Safety
import CodeOutline.Proofs.Script.Binding
import CodeOutline.Proofs.Script.Copy
import CodeOutline.Proofs.Script.SyntaxError
import CodeOutline.Proofs.Session
import CodeOutline.Proofs.Shape.Aligned
import CodeOutline.Proofs.Shape.Concluded
import CodeOutline.Proofs.Shape.Declarator
import CodeOutline.Proofs.Shape.Keyword
import CodeOutline.Proofs.Shape.Part
import CodeOutline.Proofs.Shape.Prefix
import CodeOutline.Proofs.Shape.Start
import CodeOutline.Proofs.Source.Append
import CodeOutline.Proofs.Source.Fragment
import CodeOutline.Proofs.Source.LineEnding
import CodeOutline.Proofs.Source.Mask
import CodeOutline.Proofs.Source.Segment
import CodeOutline.Proofs.Source.Word
import CodeOutline.Proofs.Symbol.Address
import CodeOutline.Proofs.Symbol.Aligned
import CodeOutline.Proofs.Symbol.Candidate
import CodeOutline.Proofs.Symbol.Duplicate
import CodeOutline.Proofs.Symbol.Function
import CodeOutline.Proofs.Symbol.Identifier
import CodeOutline.Proofs.Symbol.Invariant
import CodeOutline.Proofs.Symbol.Nested
import CodeOutline.Proofs.Symbol.Table
import CodeOutline.Proofs.Symbol.Variable
import CodeOutline.Proofs.Text.Aligned
import CodeOutline.Proofs.Text.Extent
import CodeOutline.Proofs.Text.Laid
import CodeOutline.Proofs.Text.Layout
import CodeOutline.Proofs.Text.Line
import CodeOutline.Proofs.Text.Location
import CodeOutline.Proofs.Text.Part
import CodeOutline.Proofs.Text.Position
import CodeOutline.Proofs.Text.Scan
import CodeOutline.Proofs.Text.Shown
import CodeOutline.Proofs.Text.Slice
import CodeOutline.Proofs.Tree
import CodeOutline.Proofs.Tree.Address
import CodeOutline.Proofs.Tree.Row
import CodeOutline.Protocol.Request
import CodeOutline.Protocol.Session
import CodeOutline.Render.Encode
import CodeOutline.Render.Format
import CodeOutline.Script.Context
import CodeOutline.Script.Declared
import CodeOutline.Script.Describe
import CodeOutline.Script.Grammar.Basic
import CodeOutline.Script.Grammar.Expression
import CodeOutline.Script.Grammar.Member
import CodeOutline.Script.Grammar.Statement
import CodeOutline.Script.Language
import CodeOutline.Script.Lexer
import CodeOutline.Script.ParseTree
import CodeOutline.Script.Parser
import CodeOutline.Script.Semicolon
import CodeOutline.Script.Spelling
import CodeOutline.Service.Basic
import CodeOutline.Settings.Basic
import CodeOutline.Settings.Load
import CodeOutline.Shape.Declarator
import CodeOutline.Shape.Function
import CodeOutline.Shell.Arithmetic
import CodeOutline.Shell.Condition
import CodeOutline.Shell.Escape
import CodeOutline.Shell.Evaluate
import CodeOutline.Shell.Expansion
import CodeOutline.Shell.Node
import CodeOutline.Shell.Parser
import CodeOutline.Shell.Spawn
import CodeOutline.Shell.State
import CodeOutline.Shell.Token
import CodeOutline.Shell.Utility
import CodeOutline.Shell.World
import CodeOutline.Source.Basic
import CodeOutline.Source.Mask
import CodeOutline.Symbol.Collect
import CodeOutline.Symbol.Table
import CodeOutline.Text.Cell
import CodeOutline.Text.CharClass
import CodeOutline.Text.CharTable
import CodeOutline.Text.Cursor
import CodeOutline.Text.Digits
import CodeOutline.Text.Location
import CodeOutline.Text.Reader
import CodeOutline.Text.Scan
import CodeOutline.Text.Slice
import CodeOutline.Text.Utf8
import CodeOutline.Toml.Document
import CodeOutline.Toml.Number
import CodeOutline.Toml.Quoted
import CodeOutline.Toml.Value
import CodeOutline.Tree.Basic
