import FormulaInspection.Graph.Signature
import FormulaInspection.Proofs.TreeShape

/-!
The shape of a graph that a parser may leave at any moment: complete nodes have all the parts they
are read for, context nodes may lack any of them, and whatever stands in a place that only some
kinds may take is of one of these kinds.
-/

namespace FormulaInspection

namespace NodeKind

def requiredSlots : NodeKind → List Nat
  | .eachExpression => [Slot.eachBody]
  | .parenthesizedExpression | .listExpression | .listLiteral | .recordExpression | .recordLiteral
  | .parameterList | .fieldSpecificationList | .fieldSelector | .fieldProjection
  | .itemAccessExpression | .listType => [Slot.wrappedContent]
  | .asType | .asNullablePrimitiveType | .isNullablePrimitiveType | .fieldTypeSpecification
  | .otherwiseExpression | .nullableType | .nullablePrimitiveType | .typePrimaryType =>
    [Slot.paired]
  | .asExpression => [Slot.rightOperand]
  | .csv => [Slot.csvNode]
  | .letExpression => [Slot.letBindings, Slot.letBody]
  | .metadataExpression | .rangeExpression => [Slot.leftOperand]
  | .generalizedIdentifierPairedAnyLiteral | .generalizedIdentifierPairedExpression
  | .identifierPairedExpression => [Slot.pairKey, Slot.pairValue]
  | .section => [Slot.sectionMembers]
  | .sectionMember => [Slot.sectionMemberPair]
  | .arithmeticExpression | .equalityExpression | .logicalExpression | .relationalExpression =>
    [Slot.leftOperand, Slot.operator, Slot.rightOperand]
  | .unaryExpression => [Slot.unaryOperators, Slot.unaryOperand]
  | .nullCoalescingExpression => [Slot.leftOperand, Slot.rightOperand]
  | .errorHandlingExpression => [Slot.protectedExpression]
  | .ifExpression => [Slot.ifCondition, Slot.ifTrue, Slot.ifFalse]
  | .functionExpression => [Slot.functionParameters, Slot.functionBody]
  | .functionType => [Slot.functionTypeParameters]
  | .recursivePrimaryExpression => [Slot.chainHead, Slot.chainTail]
  | .recordType => [Slot.recordTypeFields]
  | .tableType => [Slot.tableRowType]
  | _ => []

def pairKinds : List NodeKind :=
  [.generalizedIdentifierPairedAnyLiteral, .generalizedIdentifierPairedExpression,
    .identifierPairedExpression]

def ascriptionKinds : List NodeKind := [.asNullablePrimitiveType, .asType]

def slotKinds : NodeKind → Nat → Option (List NodeKind)
  | .listExpression, Slot.wrappedContent | .listLiteral, Slot.wrappedContent
  | .recordExpression, Slot.wrappedContent | .recordLiteral, Slot.wrappedContent
  | .fieldProjection, Slot.wrappedContent | .parameterList, Slot.wrappedContent
  | .fieldSpecificationList, Slot.wrappedContent | .letExpression, Slot.letBindings
  | .section, Slot.sectionMembers => some [.arrayWrapper]
  | .sectionMember, Slot.sectionMemberPair => some [.identifierPairedExpression]
  | .generalizedIdentifierPairedAnyLiteral, Slot.pairKey
  | .generalizedIdentifierPairedExpression, Slot.pairKey
  | .identifierPairedExpression, Slot.pairKey => some [.identifier, .generalizedIdentifier]
  | .functionExpression, Slot.functionParameters
  | .functionType, Slot.functionTypeParameters => some [.parameterList]
  | .functionExpression, Slot.functionReturnType
  | .functionType, Slot.functionTypeReturn
  | .parameter, Slot.parameterType => some ascriptionKinds
  | .parameter, Slot.parameterName
  | .identifierExpression, Slot.identifier => some [.identifier]
  | .recordType, Slot.recordTypeFields => some [.fieldSpecificationList]
  | _, _ => none

def elementKinds : NodeKind → Nat → Option (List NodeKind)
  | .recordExpression, Slot.wrappedContent | .recordLiteral, Slot.wrappedContent
  | .letExpression, Slot.letBindings => some pairKinds
  | .section, Slot.sectionMembers => some [.sectionMember]
  | .parameterList, Slot.wrappedContent => some [.parameter]
  | _, _ => none

end NodeKind

namespace Graph

inductive ElementOf (graph : Graph) (wrapper : NodeId) : Node → Prop
  | plain {node} : graph.ChildOf wrapper node → node.kind ≠ .csv → ElementOf graph wrapper node
  | cell {cell node} : graph.ChildOf wrapper cell → cell.kind = .csv →
      graph.InSlot cell.id Slot.csvNode node → ElementOf graph wrapper node

def ElementAt (graph : Graph) (owner : NodeId) (slot : Nat) (node : Node) : Prop :=
  ∃ wrapper, graph.InSlot owner slot wrapper ∧ wrapper.kind = .arrayWrapper ∧
    graph.ElementOf wrapper.id node

/-- A graph as the grammar allows it, finished or not. -/
structure ShapeCorrect (graph : Graph) : Prop extends graph.TreeShaped where
  required : ∀ {node : AstNode} {slot}, graph.Stored (.ast node) → slot ∈ node.kind.requiredSlots →
    ∃ child, graph.InSlot node.id slot child
  restricted : ∀ {parent child slot kinds}, graph.Stored parent → graph.InSlot parent.id slot child →
    parent.kind.slotKinds slot = some kinds → child.kind ∈ kinds
  elements : ∀ {owner element slot kinds}, graph.Stored owner →
    graph.ElementAt owner.id slot element → owner.kind.elementKinds slot = some kinds →
    element.kind ∈ kinds
  fieldTypes : ∀ {list specification child}, graph.Stored list →
    list.kind = .fieldSpecificationList →
    graph.ElementAt list.id Slot.wrappedContent specification →
    graph.InSlot specification.id Slot.fieldType child → child.kind = .fieldTypeSpecification
  literals : ∀ {node : AstNode}, graph.Stored (.ast node) → node.kind = .literalExpression →
    (Node.ast node).literal?.isSome
  primitives : ∀ {node : AstNode}, graph.Stored (.ast node) → node.kind = .primitiveType →
    (Node.ast node).primitive?.isSome
  keys : ∀ {pair} {key : AstNode}, graph.Stored pair → pair.kind ∈ NodeKind.pairKinds →
    graph.InSlot pair.id Slot.pairKey (.ast key) → (Node.ast key).identifier?.isSome

theorem ElementOf.stored {graph : Graph} {wrapper : NodeId} {node : Node}
    (element : graph.ElementOf wrapper node) : graph.Stored node := by
  cases element with
  | plain childOf _ => exact childOf.stored
  | cell _ _ inSlot => exact inSlot.childOf.stored

theorem ElementAt.stored {graph : Graph} {owner : NodeId} {slot : Nat} {node : Node}
    (element : graph.ElementAt owner slot node) : graph.Stored node := by
  obtain ⟨_, _, _, held⟩ := element
  exact held.stored

end Graph

end FormulaInspection
