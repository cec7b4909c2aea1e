import Rubric.Data.Table
import Rubric.Data.Arrangement
import Rubric.Data.Keyed
import Rubric.Text.Digit
import Rubric.Text.Visible
import Rubric.Syntax.Location
import Rubric.Syntax.TypeTerm
import Rubric.Syntax.Operator
import Rubric.Syntax.Expression
import Rubric.Syntax.Program
import Rubric.Tree.Node
import Rubric.Tree.Visit
import Rubric.Decimal.Shortest
import Rubric.Decimal.Layout
import Rubric.Decimal.Scaling
import Rubric.Json.Value
import Rubric.Json.Writer
import Rubric.Json.Reader
import Rubric.Codec.Error
import Rubric.Codec.Decoder
import Rubric.Codec.Location
import Rubric.Codec.TypeTerm
import Rubric.Codec.Expression
import Rubric.Codec.Program
import Rubric.Codec.Rule
import Rubric.Typing.Ty
import Rubric.Typing.Substitution
import Rubric.Typing.Alias
import Rubric.Typing.Unification
import Rubric.Typing.Error
import Rubric.Typing.Scope
import Rubric.Typing.Globals
import Rubric.Typing.Lowering
import Rubric.Typing.Prelude
import Rubric.Typing.Session
import Rubric.Typing.Inference
import Rubric.Typing.Checking
import Rubric.Inspection.Rule
import Rubric.Inspection.Builtin
import Rubric.Inspection.Grader
import Rubric.Inspection.Expectation
import Rubric.Yaml.Scalar
import Rubric.Yaml.Source
import Rubric.Yaml.Text
import Rubric.Yaml.Text.Plain
import Rubric.Yaml.Text.Quoted
import Rubric.Yaml.Text.Block
import Rubric.Yaml.Tag
import Rubric.Yaml.Token
import Rubric.Yaml.Token.Lexer
import Rubric.Yaml.Node
import Rubric.Yaml.Node.Grammar
import Rubric.Yaml.Document
import Rubric.CommandLine.Arguments
import Rubric.CommandLine.Report
import Rubric.Main
import Rubric.Proofs.Data.Rank
import Rubric.Proofs.Types.Equality
import Rubric.Proofs.Types.Resolution
import Rubric.Proofs.Unification.Derivation
import Rubric.Proofs.Unification.Stock
import Rubric.Proofs.Unification.Depth
import Rubric.Proofs.Types.Normal
import Rubric.Proofs.Unification.MostGeneral
import Rubric.Proofs.Checker.Run
import Rubric.Proofs.Types.Chains
import Rubric.Proofs.Checker.Equations
import Rubric.Proofs.Checker.Lowering
import Rubric.Proofs.Checker.Steps
import Rubric.Proofs.Checker.Ensures
import Rubric.Proofs.Checker.Soundness
import Rubric.Proofs.Checker.Clause
import Rubric.Proofs.Checker.Achieves
import Rubric.Proofs.Checker.Completeness
import Rubric.Proofs.Checker.History
import Rubric.Proofs.Types.Translation
import Rubric.Proofs.Unification.Simulation
import Rubric.Proofs.Unification.Guard
import Rubric.Proofs.Unification.Transparency
import Rubric.Proofs.Checker.Watch
import Rubric.Proofs.Checker.Shape
import Rubric.Proofs.Checker.Operands
import Rubric.Proofs.Checker.Order
import Rubric.Proofs.Tree.Enumeration
import Rubric.Proofs.Checker.Renaming
import Rubric.Proofs.Checker.Independence
import Rubric.Proofs.Checker.Literals
import Rubric.Proofs.Unification.Recursion
import Rubric.Proofs.Unification.Arrows
import Rubric.Proofs.Tree.Collection
import Rubric.Proofs.Checker.Outline
import Rubric.Proofs.Checker.Currying
import Rubric.Proofs.Checker.Bindings
import Rubric.Proofs.Checker.Numbering
import Rubric.Proofs.Checker.Pairing
import Rubric.Proofs.Checker.Application
import Rubric.Proofs.Checker.Reachable
import Rubric.Proofs.Checker.Operators
import Rubric.Proofs.Checker.Construction
import Rubric.Proofs.Codec.Layout
import Rubric.Proofs.Codec.Reads
import Rubric.Proofs.Codec.Terms
import Rubric.Proofs.Codec.Expressions
import Rubric.Proofs.Codec.Roundtrip
import Rubric.Proofs.Inspection.Expectations
import Rubric.Proofs.Inspection.Negation
import Rubric.Proofs.Inspection.Features
import Rubric.Proofs.Inspection.Unread
import Rubric.Proofs.Inspection.Meaning
import Rubric.Proofs.Checker.Copies
import Rubric.Proofs.Types.Composition
import Rubric.Proofs.Types.Rendering
import Rubric.Proofs.Checker.Freshness
