import Resolution.Handle
import Resolution.Table
import Resolution.Span
import Resolution.Fault
import Resolution.Interner
import Resolution.Nesting
import Resolution.Order
import Resolution.Diagnostic.Code
import Resolution.Diagnostic.Basic
import Resolution.Diagnostic.Queue
import Resolution.Chain
import Resolution.Tree.Operator
import Resolution.Tree.Header
import Resolution.Tree.Node
import Resolution.Tree.Basic
import Resolution.Tree.Source
import Resolution.Tree.Builder
import Resolution.Tree.Outline
import Resolution.Symbol.Kind
import Resolution.Symbol.Flag
import Resolution.Symbol.Overload
import Resolution.Constant.Basic
import Resolution.Symbol.Basic
import Resolution.NameTable
import Resolution.Type.Basic
import Resolution.Type.Instance
import Resolution.Type.Conversion
import Resolution.Type.Text
import Resolution.Scope.Basic
import Resolution.Constant.Arithmetic
import Resolution.Constant.Fold
import Resolution.Session
import Resolution.Resolver
import Resolution.Prelude
import Resolution.Declaration.Scan
import Resolution.Purity
import Resolution.Expression.Access
import Resolution.Expression.Literal
import Resolution.Expression.Overloading
import Resolution.Expression.Operator
import Resolution.Expression.Assignment
import Resolution.Expression.Call
import Resolution.Expression.Generic
import Resolution.Expression.Rule
import Resolution.Statement
import Resolution.Declaration.Modifiers
import Resolution.Declaration.Variable
import Resolution.Declaration.Merge
import Resolution.Declaration.Function
import Resolution.Declaration.Generated
import Resolution.Declaration.Enumeration
import Resolution.Declaration.Object
import Resolution.Declaration.Decoration
import Resolution.Declaration.Settle
import Resolution.Program
import Resolution.Summary
import Resolution.Proofs.Returning
import Resolution.Proofs.Bookkeeping
import Resolution.Proofs.Sharing
import Resolution.Proofs.Growth
import Resolution.Proofs.HashConsing
import Resolution.Proofs.Mirroring
import Resolution.Proofs.Remembering
import Resolution.Proofs.Recomputing
import Resolution.Proofs.Filling
import Resolution.Proofs.Hierarchy
import Resolution.Proofs.Settling
import Resolution.Proofs.Looking
import Resolution.Proofs.Advancing
import Resolution.Proofs.Lineage
import Resolution.Proofs.Grafting
import Resolution.Proofs.Manner
import Resolution.Proofs.RuledExpressions
import Resolution.Proofs.RuledDeclarations
import Resolution.Proofs.Safety
import Resolution.Proofs.SafeDeclarations
import Resolution.Proofs.SafeRules
import Resolution.Proofs.Building
import Resolution.Proofs.Extending
import Resolution.Proofs.Careful
import Resolution.Proofs.Builtins
import Resolution.Proofs.Scanning
import Resolution.Proofs.ScannedBlocks
import Resolution.Proofs.ScannedProgram
import Resolution.Proofs.Completion
import Resolution.Proofs.Phases
import Resolution.Proofs.Drafting
import Resolution.Proofs.Moments
import Resolution.Proofs.ModestSteps
import Resolution.Proofs.WatchedDeclarations
import Resolution.Proofs.WatchedRun
import Resolution.Proofs.Cycles
import Resolution.Proofs.Publication
import Resolution.Proofs.Descending
import Resolution.Proofs.Tending
import Resolution.Proofs.TendedScan
import Resolution.Proofs.TendedExpressions
import Resolution.Proofs.Sowing
import Resolution.Proofs.TendedDeclarations
import Resolution.Proofs.Forest
import Resolution.Proofs.Wrapping
import Resolution.Proofs.Reporting
import Resolution.Proofs.Interning
import Resolution.Proofs.Queueing
import Resolution.Proofs.Flushing
import Resolution.Proofs.Terms
import Resolution.Proofs.Substituting
import Resolution.Proofs.CommonTypes
import Resolution.Proofs.NearestBases
import Resolution.Proofs.Forgetting
import Resolution.Proofs.MemberChains
import Resolution.Proofs.Composing
import Resolution.Proofs.Promotion
import Resolution.Proofs.Evaluating
import Resolution.Proofs.Folding
import Resolution.Proofs.Reaching
import Resolution.Proofs.Merging
import Resolution.Proofs.EnumTexts
import Resolution.Proofs.Spelling
