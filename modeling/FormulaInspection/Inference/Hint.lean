import FormulaInspection.Grammar.Slot
import FormulaInspection.Graph.Basic
import FormulaInspection.Ty.Union

/-!
What the grammar expects in a slot, and the hint it gives for a leaf that is still being typed.
-/

namespace FormulaInspection

/-- The type a construct demands of the child in a slot; `notApplicable` where it demands none. -/
def expectedType (parent : NodeKind) (slot : Nat) : Ty :=
  match parent, slot with
  | .ifExpression, Slot.ifCondition => .logical
  | .ifExpression, Slot.ifTrue => .any
  | .ifExpression, Slot.ifFalse => .any
  | .asExpression, Slot.rightOperand => .of .type
  | .isExpression, Slot.rightOperand => .of .type
  | .asType, Slot.paired => .of .type
  | .asNullablePrimitiveType, Slot.paired => .of .type
  | .isNullablePrimitiveType, Slot.paired => .of .type
  | .nullableType, Slot.paired => .of .type
  | .nullablePrimitiveType, Slot.paired => .of .type
  | .typePrimaryType, Slot.paired => .of .type
  | .fieldTypeSpecification, Slot.paired => .of .type
  | .listType, Slot.wrappedContent => .of .type
  | .itemAccessExpression, Slot.wrappedContent => .of .number
  | .rangeExpression, Slot.leftOperand => .of .number
  | .rangeExpression, Slot.rightOperand => .of .number
  | .logicalExpression, Slot.leftOperand => .logical
  | .logicalExpression, Slot.rightOperand => .logical
  | .unaryExpression, Slot.unaryOperand => .oneOf [.of .number, .logical]
  | .eachExpression, Slot.eachBody => .any
  | .functionExpression, Slot.functionBody => .any
  | .letExpression, Slot.letBody => .any
  | .parenthesizedExpression, Slot.wrappedContent => .any
  | .generalizedIdentifierPairedAnyLiteral, Slot.pairValue => .any
  | .generalizedIdentifierPairedExpression, Slot.pairValue => .any
  | .identifierPairedExpression, Slot.pairValue => .any
  | .otherwiseExpression, Slot.paired => .any
  | .errorHandlingExpression, Slot.protectedExpression => .any
  | _, _ => .notApplicable

/-- Climbs from a node while each node is the only child of the one above it, and keeps the last
expectation that applies. -/
def climbForHint (graph : Graph) (best? : Option Ty) : List Node → Option Ty
  | child :: parent :: rest =>
    if 1 < (graph.childIds parent.id).length then best?
    else
      match child.slot with
      | none => best?
      | some slot =>
        let expected := expectedType parent.kind slot
        climbForHint graph (if expected.kind = .notApplicable then best? else some expected)
          (parent :: rest)
  | _ => best?

def hintAlong (graph : Graph) (path : List Node) : Option Ty :=
  climbForHint graph none path

end FormulaInspection
