import Stencil.Action
import Stencil.Builtin
import Stencil.Character.Alphabetic
import Stencil.Character.CaseMapping
import Stencil.Character.Hexadecimal
import Stencil.Character.Numeric
import Stencil.Character.Printable
import Stencil.Character.Runs
import Stencil.Config
import Stencil.Config.Json
import Stencil.Context
import Stencil.Decimal.Bits
import Stencil.Decimal.Double
import Stencil.Decimal.Layout
import Stencil.Decimal.Reading
import Stencil.Decimal.Shortest
import Stencil.Environment
import Stencil.Error
import Stencil.Frame
import Stencil.Json
import Stencil.Json.Reading
import Stencil.Loader
import Stencil.Named
import Stencil.Node
import Stencil.Node.Json
import Stencil.Node.Lifting
import Stencil.Node.Rewrite
import Stencil.Node.Traversal
import Stencil.Parser
import Stencil.Parser.Expression
import Stencil.Parser.Grammar
import Stencil.Parser.Statement
import Stencil.Parser.Template
import Stencil.Pattern
import Stencil.Pattern.Class
import Stencil.Pattern.Escape
import Stencil.Pattern.Expression
import Stencil.Pattern.Property
import Stencil.Position
import Stencil.Proofs.Binding
import Stencil.Proofs.Caching
import Stencil.Proofs.Delimiters
import Stencil.Proofs.Ending
import Stencil.Proofs.Equality
import Stencil.Proofs.Escaping
import Stencil.Proofs.Inheritance
import Stencil.Proofs.Isolation
import Stencil.Proofs.Lifting.Conserved
import Stencil.Proofs.Lookahead.Requests
import Stencil.Proofs.Numbers.Arithmetic
import Stencil.Proofs.Numbers.Orderings
import Stencil.Proofs.Numbers.Ranges
import Stencil.Proofs.Numbers.Slices
import Stencil.Proofs.Overriding
import Stencil.Proofs.Patterns
import Stencil.Proofs.Placement
import Stencil.Proofs.Printing.Statements
import Stencil.Proofs.Resolution
import Stencil.Proofs.Scheduling
import Stencil.Proofs.Scoping
import Stencil.Proofs.Selection
import Stencil.Proofs.Session.Handles
import Stencil.Proofs.Session.Operations
import Stencil.Proofs.Shaping
import Stencil.Proofs.Strictness
import Stencil.Proofs.Tiling
import Stencil.Proofs.Trimming
import Stencil.Proofs.Verbatim
import Stencil.Render.Call
import Stencil.Render.Expression
import Stencil.Render.Run
import Stencil.Render.Scope
import Stencil.Render.Statement
import Stencil.Template
import Stencil.Text
import Stencil.Token
import Stencil.Token.Lexer
import Stencil.Value
import Stencil.Value.Arithmetic
import Stencil.Value.Bounded
import Stencil.Value.Equality
import Stencil.Value.Escape
import Stencil.Value.Inspect
import Stencil.Value.Json
import Stencil.Value.Slice
