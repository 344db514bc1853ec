import FormulaInspection.Grammar.NodeKind
import FormulaInspection.Graph.Id

/-!
Why an inspection fails. A formula that is merely unfinished is no reason: what is missing shows in
the results as `unknown` or as an absent value.
-/

namespace FormulaInspection

inductive InspectionError where
  | missingNode (node : NodeId)
  | missingChild (parent : NodeId) (slot : Nat)
  | unexpectedKind (node : NodeId) (expected : List NodeKind) (actual : NodeKind)
  | missingPayload (node : NodeId) (kind : NodeKind)
  | missingScope (node : NodeId)
  | depthExceeded (node : NodeId) (limit : Nat)
  | cancelled
  deriving DecidableEq

namespace InspectionError

def message : InspectionError → String
  | .missingNode node => s!"Invariant error: node #{node} does not exist"
  | .missingChild parent slot =>
    s!"Invariant error: node #{parent} has no child at attribute index {slot}"
  | .unexpectedKind node expected actual =>
    let kinds := " | ".intercalate (expected.map NodeKind.name)
    s!"Invariant error: expected node #{node} to be {kinds}, but found {actual.name}"
  | .missingPayload node kind =>
    s!"Invariant error: {kind.name} node #{node} is missing its content"
  | .missingScope node => s!"Invariant error: no scope was resolved for node #{node}"
  | .depthExceeded node limit => s!"Inference depth exceeded {limit} levels at node #{node}"
  | .cancelled => "Inspection was cancelled"

def nodeIds : InspectionError → List NodeId
  | .missingNode node
  | .missingChild node _
  | .unexpectedKind node _ _
  | .missingPayload node _
  | .missingScope node
  | .depthExceeded node _ => [node]
  | .cancelled => []

def isCancelled : InspectionError → Bool
  | .cancelled => true
  | _ => false

end InspectionError

end FormulaInspection
