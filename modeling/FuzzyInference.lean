import FuzzyInference.Combiner
import FuzzyInference.Config.Basic
import FuzzyInference.Config.Environment
import FuzzyInference.Config.Text
import FuzzyInference.Curve.Anchors
import FuzzyInference.Curve.Basic
import FuzzyInference.Curve.Template
import FuzzyInference.Decimal.Basic
import FuzzyInference.Decimal.Notation
import FuzzyInference.Defuzzify
import FuzzyInference.Document.Curve
import FuzzyInference.Document.Form
import FuzzyInference.Document.Implication
import FuzzyInference.Document.Model
import FuzzyInference.Document.Rule
import FuzzyInference.Domain
import FuzzyInference.Error.Basic
import FuzzyInference.Error.Compile
import FuzzyInference.Formula.Basic
import FuzzyInference.Formula.Evaluate
import FuzzyInference.Formula.Function
import FuzzyInference.Formula.Parse
import FuzzyInference.Formula.Token
import FuzzyInference.Geometry.Point
import FuzzyInference.Geometry.Segment
import FuzzyInference.Implication.Basic
import FuzzyInference.Json.Basic
import FuzzyInference.Json.Reader
import FuzzyInference.Json.Sorted
import FuzzyInference.Json.Writer
import FuzzyInference.Logic.Connective
import FuzzyInference.Model
import FuzzyInference.OrderedMap
import FuzzyInference.Proofs.Combiner.Absence
import FuzzyInference.Proofs.Combiner.Document
import FuzzyInference.Proofs.Combiner.Reading
import FuzzyInference.Proofs.Config.Overrides
import FuzzyInference.Proofs.Config.RoundTrip
import FuzzyInference.Proofs.Curve.Baking
import FuzzyInference.Proofs.Curve.Gapless
import FuzzyInference.Proofs.Curve.Partition
import FuzzyInference.Proofs.Curve.Polyline
import FuzzyInference.Proofs.Curve.Staircase
import FuzzyInference.Proofs.Decimal.ReadBack
import FuzzyInference.Proofs.Defuzzify.Balance
import FuzzyInference.Proofs.Defuzzify.Mirror
import FuzzyInference.Proofs.Defuzzify.Simpson
import FuzzyInference.Proofs.Document.RoundTrip
import FuzzyInference.Proofs.Formula.Completeness
import FuzzyInference.Proofs.Formula.FloorDivision
import FuzzyInference.Proofs.Formula.Grammar
import FuzzyInference.Proofs.Formula.Guarded
import FuzzyInference.Proofs.Formula.Legible
import FuzzyInference.Proofs.Formula.Missing
import FuzzyInference.Proofs.Formula.NumberToken
import FuzzyInference.Proofs.Formula.Parsing
import FuzzyInference.Proofs.Formula.PrintedForm
import FuzzyInference.Proofs.Formula.PrintedTokens
import FuzzyInference.Proofs.Formula.Reading
import FuzzyInference.Proofs.Formula.Soundness
import FuzzyInference.Proofs.Formula.Spans
import FuzzyInference.Proofs.Formula.TokenPattern
import FuzzyInference.Proofs.Geometry.Arc
import FuzzyInference.Proofs.Geometry.Ends
import FuzzyInference.Proofs.Geometry.Exact
import FuzzyInference.Proofs.Geometry.Extremes
import FuzzyInference.Proofs.Geometry.Pieces
import FuzzyInference.Proofs.Geometry.Subsegment
import FuzzyInference.Proofs.Implication.Range
import FuzzyInference.Proofs.Implication.Rearrangement
import FuzzyInference.Proofs.Implication.Rescaling
import FuzzyInference.Proofs.Implication.Union
import FuzzyInference.Proofs.Logic.Aggregate
import FuzzyInference.Proofs.Logic.Duality
import FuzzyInference.Proofs.Model.Accounting
import FuzzyInference.Proofs.Model.Document
import FuzzyInference.Proofs.Model.OwnCombiners
import FuzzyInference.Proofs.Model.Supply
import FuzzyInference.Proofs.Rule.AsFormula
import FuzzyInference.Proofs.Rule.Balance
import FuzzyInference.Proofs.Rule.Completeness
import FuzzyInference.Proofs.Rule.Grammar
import FuzzyInference.Proofs.Rule.Ignored
import FuzzyInference.Proofs.Rule.InPlace.Group
import FuzzyInference.Proofs.Rule.InPlace.Level
import FuzzyInference.Proofs.Rule.InPlace.Statement
import FuzzyInference.Proofs.Rule.InPlace.Vector
import FuzzyInference.Proofs.Rule.Keyword
import FuzzyInference.Proofs.Rule.Layout
import FuzzyInference.Proofs.Rule.Level
import FuzzyInference.Proofs.Rule.LookupTable
import FuzzyInference.Proofs.Rule.Missing
import FuzzyInference.Proofs.Rule.Nesting
import FuzzyInference.Proofs.Rule.Polarity
import FuzzyInference.Proofs.Rule.PrintedForm
import FuzzyInference.Proofs.Rule.SingleLine
import FuzzyInference.Proofs.Rule.Statement
import FuzzyInference.Proofs.Rule.Substitution
import FuzzyInference.Proofs.RuleSet.Coverage
import FuzzyInference.Proofs.RuleSet.Document
import FuzzyInference.Proofs.RuleSet.History
import FuzzyInference.Proofs.RuleSet.Order
import FuzzyInference.Proofs.RuleSet.Validation
import FuzzyInference.Proofs.Scalar.Magnitude
import FuzzyInference.Proofs.Scalar.Order
import FuzzyInference.Proofs.Scalar.Packing
import FuzzyInference.Proofs.Scalar.Rounding
import FuzzyInference.Proofs.Scalar.SignedZero
import FuzzyInference.Proofs.Scalar.Unsigned
import FuzzyInference.Proofs.Toml.Lines
import FuzzyInference.Proofs.Toml.Value
import FuzzyInference.Proofs.Variable.History
import FuzzyInference.Record
import FuzzyInference.Rule.Basic
import FuzzyInference.Rule.Bracketed
import FuzzyInference.Rule.Expr
import FuzzyInference.Rule.Fold
import FuzzyInference.Rule.Import
import FuzzyInference.RuleSet
import FuzzyInference.Scalar.Basic
import FuzzyInference.Scalar.Binary64
import FuzzyInference.Scalar.Numeral
import FuzzyInference.SlotMap
import FuzzyInference.Text.Basic
import FuzzyInference.Text.LowerCase
import FuzzyInference.Text.Quoted
import FuzzyInference.Toml.Basic
import FuzzyInference.Toml.Number
import FuzzyInference.Toml.Reader
import FuzzyInference.Toml.Text
import FuzzyInference.Value
import FuzzyInference.Variable.Basic
import FuzzyInference.Variable.Store
