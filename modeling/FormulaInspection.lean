import FormulaInspection.Graph.Builder
import FormulaInspection.Main
import FormulaInspection.Proofs.Combination
import FormulaInspection.Proofs.Contracts
import FormulaInspection.Proofs.NameMap
import FormulaInspection.Proofs.StoredGraph
import FormulaInspection.Proofs.Ancestry
import FormulaInspection.Proofs.Shape
import FormulaInspection.Proofs.LexicalScope
import FormulaInspection.Proofs.Resolution
import FormulaInspection.Proofs.ScopeCache
import FormulaInspection.Proofs.DeclarationReadings
import FormulaInspection.Proofs.Depth
import FormulaInspection.Proofs.BoundItems
import FormulaInspection.Proofs.AliasChain
import FormulaInspection.Proofs.Completion
import FormulaInspection.Proofs.ShapeCheck
import FormulaInspection.Proofs.Bindings
import FormulaInspection.Proofs.Memoryless
import FormulaInspection.Proofs.Steadiness
import FormulaInspection.Proofs.Warmth
import FormulaInspection.Proofs.Nesting
import FormulaInspection.Proofs.Balance
import FormulaInspection.Proofs.Interruption
import FormulaInspection.Proofs.Detachment
import FormulaInspection.Proofs.ResolvedPath
import FormulaInspection.Proofs.NormalInference
import FormulaInspection.Proofs.Nullability
import FormulaInspection.Proofs.RepeatedKeys
import FormulaInspection.Proofs.Linking
import FormulaInspection.Proofs.Steps
import FormulaInspection.Proofs.Assembly
import FormulaInspection.Proofs.WrittenArrays
import FormulaInspection.Proofs.WrittenPairs
import FormulaInspection.Proofs.WrittenDeclarations
import FormulaInspection.Proofs.Chains
import FormulaInspection.Proofs.DeclaredResults
import FormulaInspection.Proofs.LiteralIndex
import FormulaInspection.Proofs.WrittenChains
import FormulaInspection.Proofs.Calls
import FormulaInspection.Proofs.Forest
import FormulaInspection.Proofs.ReadBack
import FormulaInspection.Proofs.ChainTypes
import FormulaInspection.Proofs.TypeEquality
import FormulaInspection.Proofs.Projection
import FormulaInspection.Proofs.FieldOrder
import FormulaInspection.Proofs.Grouping
import FormulaInspection.Proofs.OperandHints
import FormulaInspection.Proofs.HintSpan
import FormulaInspection.Proofs.MissingScopes
