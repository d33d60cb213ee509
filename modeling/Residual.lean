import Residual.Automaton.Alphabet
import Residual.Automaton.Dfa
import Residual.Automaton.Exploration
import Residual.Automaton.Layout
import Residual.BuildError
import Residual.Config
import Residual.Digest
import Residual.Encoding
import Residual.Event
import Residual.Lanes
import Residual.Lanes.Folding
import Residual.Matcher.Basic
import Residual.Matcher.Builder
import Residual.Matcher.Generic
import Residual.Matcher.Lookup
import Residual.Matcher.Permute
import Residual.Matcher.Selection
import Residual.Pattern.Basic
import Residual.Pattern.Parser
import Residual.Regex.Basic
import Residual.Regex.Comparison
import Residual.Regex.Display
import Residual.Regex.Substitution
import Residual.Scan
import Residual.Symbol
import Residual.Text.Escape
import Residual.Text.Invisible
import Residual.Text.Outline
import Residual.Tree.Basic
import Residual.Tree.Canonical
import Residual.Tree.Derivative
import Residual.Tree.Finite
import Residual.Tree.Join
import Residual.Tree.Members
import Residual.Tree.Operations
import Residual.Tree.Order
import Residual.Tree.OrderLemmas
import Residual.Tree.Sequence
import Residual.Proofs.Expression
import Residual.Proofs.Automaton.Exploration
import Residual.Proofs.Matcher.Lookup
import Residual.Proofs.Matcher.Permute
import Residual.Proofs.Matcher.Selection
import Residual.Proofs.Matcher.Agreement
import Residual.Proofs.Matcher.Builder
import Residual.Proofs.Encoding
import Residual.Proofs.Matcher.Encoded
import Residual.Proofs.NormalForm
import Residual.Proofs.CodeWords
import Residual.Proofs.Grammar
import Residual.Proofs.ByteOrder
import Residual.Proofs.Automaton.Discovery
import Residual.Proofs.Matcher.Numbering
import Residual.Proofs.Legible
import Residual.Proofs.Display
import Residual.Proofs.Nesting
import Residual.Proofs.SyntaxErrors
import Residual.Proofs.Walking
import Residual.Proofs.Flattening
import Residual.Proofs.Factors
import Residual.Proofs.Matcher.Limit
import Residual.Proofs.Matcher.Kind
import Residual.Proofs.Homomorphism
import Residual.Proofs.Images
import Residual.Proofs.RoundTrip
import Residual.Proofs.Comparison
import Residual.Proofs.Mentioned
import Residual.Proofs.Boolean
import Residual.Proofs.Automaton.Writing
import Residual.Proofs.Scan
import Residual.Proofs.Automaton.Queries
import Residual.Proofs.Matcher.Tables
import Residual.Proofs.Dictionary
