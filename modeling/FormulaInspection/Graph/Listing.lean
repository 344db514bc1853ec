import FormulaInspection.Grammar.Slot
import FormulaInspection.Graph.Basic

/-!
The repeated parts of a construct: the elements of an array, the pairs of a record, `let` or
section, and the fields of a record or table type. Parts that a context node has not reached are
left out.
-/

namespace FormulaInspection

/-- A `key = value` pair. The value is absent while it is not written. -/
structure KeyValuePair where
  pair : Node
  key : String
  keyNode : Node
  value? : Option Node

structure FieldSpecification where
  name : String
  isOptional : Bool
  type? : Option Node

namespace Graph

def checkKind (node : Node) (expected : List NodeKind) : Except InspectionError Unit :=
  if expected.contains node.kind then .ok ()
  else .error (.unexpectedKind node.id expected node.kind)

def openCells (graph : Graph) : List Node → Except InspectionError (List Node)
  | [] => .ok []
  | node :: rest => do
    if node.kind = .csv then
      match ← graph.requiredChild? node Slot.csvNode with
      | some content => return content :: (← graph.openCells rest)
      | none => graph.openCells rest
    else return node :: (← graph.openCells rest)

def arrayContents (graph : Graph) (wrapper : Node) : Except InspectionError (List Node) := do
  checkKind wrapper [.arrayWrapper]
  graph.openCells (← graph.childNodes wrapper.id)

def contentsAt (graph : Graph) (node : Node) (slot : Nat) :
    Except InspectionError (List Node) := do
  match ← graph.requiredChild? node slot (some [.arrayWrapper]) with
  | some wrapper => graph.arrayContents wrapper
  | none => return []

/-- Reads a pair. There is nothing to read while the key is not written. -/
def keyValuePair? (graph : Graph) (pair : Node) : Except InspectionError (Option KeyValuePair) := do
  checkKind pair
    [.generalizedIdentifierPairedAnyLiteral, .generalizedIdentifierPairedExpression,
      .identifierPairedExpression]
  match ← graph.requiredChild? pair Slot.pairKey (some [.identifier, .generalizedIdentifier]) with
  | none => return none
  | some keyNode =>
    match keyNode.identifier? with
    | none =>
      if keyNode.isComplete then .error (.missingPayload keyNode.id keyNode.kind) else return none
    | some key =>
      let value? ← graph.child? pair.id Slot.pairValue
      return some { pair, key, keyNode, value? }

def keyValuePairs (graph : Graph) : List Node → Except InspectionError (List KeyValuePair)
  | [] => .ok []
  | node :: rest => do
    match ← graph.keyValuePair? node with
    | some pair => return pair :: (← graph.keyValuePairs rest)
    | none => graph.keyValuePairs rest

def recordPairs (graph : Graph) (record : Node) : Except InspectionError (List KeyValuePair) := do
  graph.keyValuePairs (← graph.contentsAt record Slot.wrappedContent)

def letPairs (graph : Graph) (letNode : Node) : Except InspectionError (List KeyValuePair) := do
  graph.keyValuePairs (← graph.contentsAt letNode Slot.letBindings)

def memberPairs (graph : Graph) : List Node → Except InspectionError (List Node)
  | [] => .ok []
  | member :: rest => do
    checkKind member [.sectionMember]
    match ← graph.requiredChild? member Slot.sectionMemberPair
        (some [.identifierPairedExpression]) with
    | some pair => return pair :: (← graph.memberPairs rest)
    | none => graph.memberPairs rest

def sectionPairs (graph : Graph) (sectionNode : Node) :
    Except InspectionError (List KeyValuePair) := do
  let members ← graph.contentsAt sectionNode Slot.sectionMembers
  graph.keyValuePairs (← graph.memberPairs members)

def fieldType? (graph : Graph) (specification : Node) : Except InspectionError (Option Node) := do
  match ← graph.child? specification.id Slot.fieldType (some [.fieldTypeSpecification]) with
  | some typeSpecification => graph.child? typeSpecification.id Slot.paired
  | none => return none

def readFields (graph : Graph) : List Node → Except InspectionError (List FieldSpecification)
  | [] => .ok []
  | specification :: rest => do
    match (← graph.child? specification.id Slot.fieldName).bind Node.identifier? with
    | none => graph.readFields rest
    | some name =>
      let isOptional ← graph.hasChild specification.id Slot.fieldOptional
      let type? ← graph.fieldType? specification
      return { name, isOptional, type? } :: (← graph.readFields rest)

def fieldSpecifications (graph : Graph) (fieldList : Node) :
    Except InspectionError (List FieldSpecification × Bool) := do
  let fields ← graph.readFields (← graph.contentsAt fieldList Slot.wrappedContent)
  let isOpen ← graph.hasChild fieldList.id Slot.openMarker
  return (fields, isOpen)

end Graph

end FormulaInspection
