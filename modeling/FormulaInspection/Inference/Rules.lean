import FormulaInspection.Decimal
import FormulaInspection.Graph.Signature
import FormulaInspection.Inference.Alias
import FormulaInspection.NameMap
import FormulaInspection.Ty.Declared
import FormulaInspection.Ty.Elimination
import FormulaInspection.Ty.Operator

/-!
The typing rule of each kind of node. A part that a context node has not come to is `unknown`; a
part that a complete node lacks is an error.
-/

namespace FormulaInspection

def ParameterSignature.parameter (signature : ParameterSignature) : Parameter :=
  { name := signature.name
    isOptional := signature.isOptional
    isNullable := signature.isNullable
    kind := signature.declared?.map PrimitiveName.kind }

def unaryOperators : TypeKind → List Token
  | .number => [.plus, .minus]
  | .logical => [.notWord]
  | _ => []

def literalIndex? (content : Node) : Option Nat :=
  match content.literal? with
  | some (.numeric, text) => Decimal.ofText? Decimal.bound64 text
  | _ => none

namespace Graph

open Demand

def typeAt (graph : Graph) (id : NodeId) : Demand Ty := do
  let node ← graph.node id
  askType node

def childType (graph : Graph) (parent : Node) (slot : Nat) : Demand Ty := do
  match ← graph.requiredChild? parent slot with
  | some child => askType child
  | none => return .unknown

def elementsAt (graph : Graph) (node : Node) (slot : Nat) : Except InspectionError (List Node) := do
  match ← graph.requiredChild? node slot with
  | some wrapper => graph.arrayContents wrapper
  | none => return []

def literalType (node : Node) : Demand Ty :=
  match node.literal? with
  | some (.logical, _) => return .logical
  | some (.null, _) => return .null
  | some (.numeric, _) => return .of .number
  | some (.text, _) => return .of .text
  | none => if node.isComplete then .fail (.missingPayload node.id node.kind) else return .unknown

def primitiveType (node : Node) : Demand Ty :=
  match node.primitive? with
  | some primitive => return .of primitive.kind
  | none => if node.isComplete then .fail (.missingPayload node.id node.kind) else return .unknown

/-- While the right operand is not written, the type is a hint for it. -/
def operationType (graph : Graph) (node : Node) : Demand Ty := do
  match ← graph.requiredChild? node Slot.leftOperand with
  | none => return .unknown
  | some leftNode =>
    let left ← askType leftNode
    match (← graph.requiredChild? node Slot.operator).bind Node.token? with
    | none => return .unknown
    | some operator =>
      match ← graph.requiredChild? node Slot.rightOperand with
      | none => return left.operandHint operator
      | some rightNode =>
        let right ← askType rightNode
        return left.operate operator right

def operatorTokens (graph : Graph) (node : Node) : Except InspectionError (List Token) := do
  match ← graph.requiredChild? node Slot.unaryOperators with
  | some wrapper => return (← graph.childNodes wrapper.id).filterMap Node.token?
  | none => return []

def unaryType (graph : Graph) (node : Node) : Demand Ty := do
  let operand ← graph.childType node Slot.unaryOperand
  if operand.isUnknown || operand.kind == .any then return operand
  else
    let operators ← graph.operatorTokens node
    if operators.all fun operator => (unaryOperators operand.kind).contains operator then
      return operand
    else return .none

/-- The value of `left ?? right` is never the `null` of its left side. -/
def coalescingType (graph : Graph) (node : Node) : Demand Ty := do
  let left ← graph.childType node Slot.leftOperand
  let right ← graph.childType node Slot.rightOperand
  return .oneOf [left.withNullable false, right]

/-- Without `otherwise`, a `try` gives a record that describes what happened. -/
def errorHandlingType (graph : Graph) (node : Node) : Demand Ty := do
  let attempted ← graph.childType node Slot.protectedExpression
  match ← graph.child? node.id Slot.otherwiseHandler with
  | some handler =>
    let handled ← askType handler
    return .oneOf [attempted, handled]
  | none => return .of .record

def branchType (graph : Graph) (node : Node) : Demand Ty := do
  let whenTrue ← graph.childType node Slot.ifTrue
  let whenFalse ← graph.childType node Slot.ifFalse
  return .oneOf [whenTrue, whenFalse]

def ifType (graph : Graph) (node : Node) : Demand Ty := do
  match ← graph.requiredChild? node Slot.ifCondition with
  | none => graph.branchType node
  | some conditionNode =>
    let condition ← askType conditionNode
    if condition.isCondition then graph.branchType node else return .none

def listType (graph : Graph) (node : Node) : Demand Ty := do
  let elements ← graph.elementsAt node Slot.wrappedContent
  let types ← askTypes elements
  return .list types false

def pairFields (fields : List (String × Ty)) :
    List KeyValuePair → Demand (List (String × Ty))
  | [] => return fields
  | pair :: rest => do
    match pair.value? with
    | some value =>
      let ty ← askType value
      pairFields (NameMap.set fields pair.key ty) rest
    | none => pairFields (NameMap.set fields pair.key .unknown) rest

def recordType (graph : Graph) (node : Node) : Demand Ty := do
  let pairs ← graph.recordPairs node
  let fields ← pairFields [] pairs
  return .record fields false false

/-- A function whose body contradicts its declared return type has no value. -/
def functionType (graph : Graph) (node : Node) : Demand Ty := do
  let signature ← graph.functionSignature node
  let body ← graph.childType node Slot.functionBody
  let parameters := signature.parameters.map ParameterSignature.parameter
  match signature.returnType? with
  | none => return .function parameters body false
  | some (primitive, isNullable) =>
    match Ty.reconcile (primitive.declared isNullable) body with
    | some result => return .function parameters result false
    | none => return .none

def parameterNodeType (graph : Graph) (node : Node) : Demand Ty := do
  match ← graph.parameterSignature? node with
  | some signature =>
    return parameterType signature.declared? signature.isNullable signature.isOptional
  | none => return .unknown

def itemType (graph : Graph) : ScopeItem → Demand Ty
  | .each expression => graph.typeAt expression
  | .keyValuePair _ _ value? _ | .sectionMember _ _ value? _ =>
    match value? with
    | some value => graph.typeAt value
    | none => return .unknown
  | .parameter _ _ isNullable isOptional declared? =>
    return parameterType declared? isNullable isOptional
  | .undefined _ => return .unknown

def dereferencedType (graph : Graph) (node : Node) : Demand Ty := do
  match ← graph.dereference node with
  | .item item => graph.itemType item
  | .recursive => return .any

def identifierType (graph : Graph) (node : Node) : Demand Ty := do
  match ← graph.parent? node.id with
  | none => graph.dereferencedType node
  | some parent =>
    match parent.kind with
    | .identifierPairedExpression =>
      if node.slot = some Slot.pairKey then graph.childType parent Slot.pairValue
      else graph.dereferencedType node
    | .identifierExpression | .parameter => askType parent
    | _ => graph.dereferencedType node

def chainType (graph : Graph) (node : Node) : Demand Ty := do
  match ← graph.requiredChild? node Slot.chainTail with
  | none => graph.childType node Slot.chainHead
  | some tail =>
    match (graph.childIds tail.id).getLast? with
    | some last => graph.typeAt last
    | none => graph.childType node Slot.chainHead

/-- The element in front of an id in a list: nothing if the id is not there, and `previous?` if it
is the first. -/
def elementBefore? (id : NodeId) (previous? : Option NodeId) :
    List NodeId → Option (Option NodeId)
  | [] => none
  | element :: rest =>
    if element = id then some previous? else elementBefore? id (some element) rest

def enclosingChain? (graph : Graph) (node : Node) :
    Except InspectionError (Option (Node × Node)) := do
  match ← graph.parent? node.id with
  | none => return none
  | some wrapper =>
    if wrapper.kind = .arrayWrapper ∧ wrapper.slot = some Slot.chainTail then
      match ← graph.parent? wrapper.id with
      | none => return none
      | some chain =>
        if chain.kind = .recursivePrimaryExpression then return some (chain, wrapper)
        else return none
    else return none

def previousInChain? (graph : Graph) (node : Node) : Except InspectionError (Option Node) := do
  match ← graph.enclosingChain? node with
  | none => return none
  | some (chain, wrapper) =>
    match elementBefore? node.id none (graph.childIds wrapper.id) with
    | none => return none
    | some none => graph.requiredChild? chain Slot.chainHead
    | some (some previous) => return some (← graph.node previous)

/-- The type that an element of a chain applies to. Outside of a chain, field access reads `_`, as
in `each [a]`. -/
def baseType (graph : Graph) (node : Node) : Demand Ty := do
  match ← graph.previousInChain? node with
  | some previous => askType previous
  | none =>
    if node.kind = .fieldSelector ∨ node.kind = .fieldProjection then
      match ← askBinding node.id "_" with
      | some item => graph.itemType item
      | none => return .unknown
    else return .unknown

def invokeType (graph : Graph) (node : Node) : Demand Ty := do
  let base ← graph.baseType node
  return base.call

def selectorType (graph : Graph) (node : Node) : Demand Ty := do
  match (← graph.requiredChild? node Slot.wrappedContent).bind Node.identifier? with
  | none => return .unknown
  | some name =>
    let isOptional ← graph.hasChild node.id Slot.wrappedOptional
    let base ← graph.baseType node
    return base.selectField name isOptional

def selectorNames (graph : Graph) : List Node → Except InspectionError (List String)
  | [] => .ok []
  | selector :: rest => do
    match (← graph.child? selector.id Slot.wrappedContent).bind Node.identifier? with
    | some name => return name :: (← graph.selectorNames rest)
    | none => graph.selectorNames rest

def projectionType (graph : Graph) (node : Node) : Demand Ty := do
  let selectors ← graph.elementsAt node Slot.wrappedContent
  let names ← graph.selectorNames selectors
  let isOptional ← graph.hasChild node.id Slot.wrappedOptional
  let base ← graph.baseType node
  return base.projectFields names isOptional

def itemAccessType (graph : Graph) (node : Node) : Demand Ty := do
  let content? ← graph.requiredChild? node Slot.wrappedContent
  let isOptional ← graph.hasChild node.id Slot.wrappedOptional
  let base ← graph.baseType node
  return base.accessItem (content?.bind literalIndex?) isOptional

def typePrimaryType (graph : Graph) (node : Node) : Demand Ty := do
  let denoted ← graph.childType node Slot.paired
  if denoted.isMeta then return denoted else return .typeValue denoted false

/-- The fields of the given specifications, added to those found before. A field without a type may
be anything, and an optional field may be `null`. -/
def specifiedFields (fields : List (String × Ty)) :
    List FieldSpecification → Demand (List (String × Ty))
  | [] => return fields
  | specification :: rest => do
    match specification.type? with
    | some typeNode =>
      let ty ← askType typeNode
      let ty := if specification.isOptional then ty.withNullable true else ty
      specifiedFields (NameMap.set fields specification.name ty) rest
    | none => specifiedFields (NameMap.set fields specification.name .any) rest

def declaredFields (graph : Graph) (fieldList : Node) : Demand (List (String × Ty) × Bool) := do
  let (specifications, isOpen) ← graph.fieldSpecifications fieldList
  let fields ← specifiedFields [] specifications
  return (fields, isOpen)

def recordTypeType (graph : Graph) (node : Node) : Demand Ty := do
  match ← graph.requiredChild? node Slot.recordTypeFields with
  | some fieldList =>
    let (fields, isOpen) ← graph.declaredFields fieldList
    return .recordType fields isOpen false
  | none => return .recordType [] true false

def tableTypeType (graph : Graph) (node : Node) : Demand Ty := do
  match ← graph.requiredChild? node Slot.tableRowType with
  | none => return .tableType [] true false
  | some row =>
    if row.kind = .fieldSpecificationList then
      let (fields, isOpen) ← graph.declaredFields row
      return .tableType fields isOpen false
    else
      match ← askType row with
      | .recordType fields isOpen _ => return .tableType fields isOpen false
      | _ => return .tableType [] true false

def listTypeType (graph : Graph) (node : Node) : Demand Ty := do
  let item ← graph.childType node Slot.wrappedContent
  return .listType item false

def functionTypeType (graph : Graph) (node : Node) : Demand Ty := do
  let signature ← graph.functionSignature node
  let parameters := signature.parameters.map ParameterSignature.parameter
  let result := match signature.returnType? with
    | some (primitive, isNullable) => primitive.declared isNullable
    | none => .any
  return .typeValue (.function parameters result false) false

def nullableTypeType (graph : Graph) (node : Node) : Demand Ty := do
  let ty ← graph.childType node Slot.paired
  return ty.withNullable true

def fieldSpecificationType (graph : Graph) (node : Node) : Demand Ty := do
  match ← graph.child? node.id Slot.fieldType with
  | some specification => askType specification
  | none => return .any

def typingRule (graph : Graph) (node : Node) : Demand Ty :=
  match node.kind with
  | .arrayWrapper | .constant | .fieldSpecificationList | .generalizedIdentifier | .parameterList
  | .section => return .notApplicable
  | .eachExpression => graph.childType node Slot.eachBody
  | .parenthesizedExpression => graph.childType node Slot.wrappedContent
  | .asType | .asNullablePrimitiveType | .isNullablePrimitiveType | .fieldTypeSpecification
  | .otherwiseExpression => graph.childType node Slot.paired
  | .nullableType | .nullablePrimitiveType => graph.nullableTypeType node
  | .asExpression => graph.childType node Slot.rightOperand
  | .csv => graph.childType node Slot.csvNode
  | .letExpression => graph.childType node Slot.letBody
  | .metadataExpression | .rangeExpression => graph.childType node Slot.leftOperand
  | .generalizedIdentifierPairedAnyLiteral | .generalizedIdentifierPairedExpression
  | .identifierPairedExpression => graph.childType node Slot.pairValue
  | .sectionMember => graph.childType node Slot.sectionMemberPair
  | .isExpression => return .logical
  | .errorRaisingExpression | .notImplementedExpression => return .none
  | .literalExpression => literalType node
  | .primitiveType => primitiveType node
  | .arithmeticExpression | .equalityExpression | .logicalExpression | .relationalExpression =>
    graph.operationType node
  | .unaryExpression => graph.unaryType node
  | .nullCoalescingExpression => graph.coalescingType node
  | .errorHandlingExpression => graph.errorHandlingType node
  | .ifExpression => graph.ifType node
  | .listExpression | .listLiteral => graph.listType node
  | .recordExpression | .recordLiteral => graph.recordType node
  | .functionExpression => graph.functionType node
  | .parameter => graph.parameterNodeType node
  | .identifier => graph.identifierType node
  | .identifierExpression => graph.dereferencedType node
  | .recursivePrimaryExpression => graph.chainType node
  | .invokeExpression => graph.invokeType node
  | .fieldSelector => graph.selectorType node
  | .fieldProjection => graph.projectionType node
  | .itemAccessExpression => graph.itemAccessType node
  | .typePrimaryType => graph.typePrimaryType node
  | .recordType => graph.recordTypeType node
  | .tableType => graph.tableTypeType node
  | .listType => graph.listTypeType node
  | .functionType => graph.functionTypeType node
  | .fieldSpecification => graph.fieldSpecificationType node

end Graph

end FormulaInspection
