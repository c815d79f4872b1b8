import TypstFormat.Text.CharTable
import TypstFormat.Text.CharClass
import TypstFormat.Text.Range
import TypstFormat.Text.LineColumn
import TypstFormat.Text.Lines
import TypstFormat.Text.Quoted
import TypstFormat.Kind
import TypstFormat.Diagnostic
import TypstFormat.Token.Basic
import TypstFormat.Token.Lexeme
import TypstFormat.Token.Scanner
import TypstFormat.Token.Stream
import TypstFormat.Tree.Basic
import TypstFormat.Tree.Builder
import TypstFormat.Tree.Event
import TypstFormat.Tree.Assembly
import TypstFormat.Tree.Element
import TypstFormat.Grammar.Parser
import TypstFormat.Grammar.Node
import TypstFormat.Grammar.Expect
import TypstFormat.Grammar.Rules
import TypstFormat.Grammar.Block
import TypstFormat.Grammar.Item
import TypstFormat.Grammar.Keyword
import TypstFormat.Grammar.Expression
import TypstFormat.Grammar.Markup
import TypstFormat.Grammar.Document
import TypstFormat.Config.Value
import TypstFormat.Layout.Options
import TypstFormat.Layout.Notice
import TypstFormat.Layout.Context
import TypstFormat.Layout.Siblings
import TypstFormat.Layout.Arguments
import TypstFormat.Layout.Document
import TypstFormat.Number.Binary64
import TypstFormat.Number.Integer
import TypstFormat.Number.Shortest
import TypstFormat.Text.LineEnds
import TypstFormat.Text.Utf8
import TypstFormat.File.Path
import TypstFormat.File.Store
import TypstFormat.Config.Toml.Numeral
import TypstFormat.Config.Toml.Text
import TypstFormat.Config.Toml.Document
import TypstFormat.Config.File
import TypstFormat.Command.Arguments
import TypstFormat.Command.Run
import TypstFormat.Main
import TypstFormat.Proofs.Token.Stream
import TypstFormat.Proofs.Token.Session
import TypstFormat.Proofs.Grammar.Diagnostics
import TypstFormat.Proofs.Layout.Document
import TypstFormat.Proofs.Grammar.Recording
import TypstFormat.Proofs.Grammar.Delimiters
import TypstFormat.Proofs.Text.Utf8
import TypstFormat.Proofs.File.Store
import TypstFormat.Proofs.Command.Run
import TypstFormat.Proofs.Twin.Keeps
import TypstFormat.Proofs.Twin.Sides
import TypstFormat.Proofs.Twin.View
import TypstFormat.Proofs.Twin.Step
import TypstFormat.Proofs.Twin.Action
import TypstFormat.Proofs.Twin.Rules
import TypstFormat.Proofs.Twin.Block
import TypstFormat.Proofs.Twin.Ahead
import TypstFormat.Proofs.Twin.Item
import TypstFormat.Proofs.Twin.Keyword
import TypstFormat.Proofs.Twin.Rewind
import TypstFormat.Proofs.Twin.Expression
import TypstFormat.Proofs.Twin.Markup
import TypstFormat.Proofs.Token.Boundary
import TypstFormat.Proofs.Command.Status
import TypstFormat.Proofs.Grammar.Placement
import TypstFormat.Proofs.Grammar.Precedence
import TypstFormat.Proofs.Grammar.Arguments
import TypstFormat.Proofs.Grammar.Separation
import TypstFormat.Proofs.Grammar.Embedded
import TypstFormat.Proofs.Grammar.LineStart
import TypstFormat.Proofs.Grammar.Indentation
import TypstFormat.Proofs.Layout.Lists
import TypstFormat.Proofs.Layout.Comments
import TypstFormat.Proofs.Layout.Spacing
import TypstFormat.Proofs.Layout.Stable
import TypstFormat.Proofs.Layout.Visits
import TypstFormat.Proofs.Twin.Document
import TypstFormat.Proofs.Twin.Trees
import TypstFormat.Proofs.Token.Patch
import TypstFormat.Proofs.Token.Replaced
import TypstFormat.Proofs.Twin.Parsed
import TypstFormat.Proofs.Twin.LineEnds
import TypstFormat.Proofs.Twin.WhiteSpace
import TypstFormat.Proofs.Twin.BlockTree
import TypstFormat.Proofs.Text.LineColumn
import TypstFormat.Proofs.Token.Quoted
import TypstFormat.Proofs.Layout.Reported
import TypstFormat.Proofs.Layers.Construct
import TypstFormat.Proofs.Layout.Collapse
import TypstFormat.Proofs.Tree.Playback
