import FormulaInspection.Grammar.Slot
import FormulaInspection.Graph.Basic

/-!
Building a graph from the leaves up. A node gets the next id when it is made, and the nodes given
as its children are put into their slots and linked to it.
-/

namespace FormulaInspection

structure Builder where
  graph : Graph
  lastId : NodeId

abbrev Build := StateM Builder

namespace Builder

def empty : Builder :=
  { graph := .empty, lastId := 0 }

def attach (graph : Graph) (parent : NodeId) (children : List (Nat × NodeId)) : Graph :=
  children.foldl (fun graph child => (graph.setSlot child.2 child.1).link parent child.2) graph

def ast (kind : NodeKind) (payload : Payload) (children : List (Nat × NodeId)) : Build NodeId :=
  fun builder =>
    let id := builder.lastId + 1
    let graph := builder.graph.insertAst { id, kind, slot := none, payload }
    let graph := if children.isEmpty then graph.markLeaf id else graph
    (id, { graph := attach graph id children, lastId := id })

def context (kind : NodeKind) (children : List (Nat × NodeId)) : Build NodeId :=
  fun builder =>
    let id := builder.lastId + 1
    let graph := builder.graph.insertContext { id, kind, slot := none }
    (id, { graph := attach graph id children, lastId := id })

def node (kind : NodeKind) (children : List (Nat × NodeId)) : Build NodeId :=
  ast kind .none children

def token (token : Token) : Build NodeId :=
  ast .constant (.token token) []

def identifier (name : String) : Build NodeId :=
  ast .identifier (.identifier name) []

def generalizedIdentifier (name : String) : Build NodeId :=
  ast .generalizedIdentifier (.identifier name) []

def literal (kind : LiteralKind) (text : String) : Build NodeId :=
  ast .literalExpression (.literal kind text) []

def numericLiteral (text : String) : Build NodeId :=
  literal .numeric text

def textLiteral (text : String) : Build NodeId :=
  literal .text ("\"" ++ text ++ "\"")

def logicalLiteral (value : Bool) : Build NodeId :=
  literal .logical (if value then "true" else "false")

def nullLiteral : Build NodeId :=
  literal .null "null"

def primitiveType (primitive : PrimitiveName) : Build NodeId :=
  ast .primitiveType (.primitive primitive) []

def identifierExpression (name : String) : Build NodeId := do
  let identifier ← identifier name
  node .identifierExpression [(Slot.identifier, identifier)]

def inclusiveIdentifierExpression (name : String) : Build NodeId := do
  let mark ← token .atSign
  let identifier ← identifier name
  node .identifierExpression [(Slot.inclusiveMark, mark), (Slot.identifier, identifier)]

def nullablePrimitiveType (primitive : PrimitiveName) : Build NodeId := do
  let nullable ← token .nullableWord
  let primitive ← primitiveType primitive
  node .nullablePrimitiveType [(0, nullable), (Slot.paired, primitive)]

def asNullablePrimitiveType (primitive : PrimitiveName) (isNullable : Bool) : Build NodeId := do
  let asWord ← token .asWord
  let paired ← if isNullable then nullablePrimitiveType primitive else primitiveType primitive
  node .asNullablePrimitiveType [(0, asWord), (Slot.paired, paired)]

def array (elements : List NodeId) : Build NodeId :=
  node .arrayWrapper (elements.zipIdx.map fun (element, index) => (index, element))

def csvCells : List NodeId → Build (List NodeId)
  | [] => pure []
  | [element] => do
    let cell ← node .csv [(Slot.csvNode, element)]
    return [cell]
  | element :: rest => do
    let comma ← token .comma
    let cell ← node .csv [(Slot.csvNode, element), (1, comma)]
    let cells ← csvCells rest
    return cell :: cells

def csvArray (elements : List NodeId) : Build NodeId := do
  let cells ← csvCells elements
  array cells

def wrapped (kind : NodeKind) (opening : Token) (content : NodeId) (closing : Token)
    (isOptional : Bool) : Build NodeId := do
  let opening ← token opening
  let closing ← token closing
  let children := [(0, opening), (Slot.wrappedContent, content), (2, closing)]
  if isOptional then
    let questionMark ← token .questionMark
    node kind (children ++ [(Slot.wrappedOptional, questionMark)])
  else node kind children

def parenthesized (inner : NodeId) : Build NodeId :=
  wrapped .parenthesizedExpression .leftParenthesis inner .rightParenthesis false

def listExpression (elements : List NodeId) : Build NodeId := do
  let content ← csvArray elements
  wrapped .listExpression .leftBrace content .rightBrace false

def pair (kind : NodeKind) (key value : NodeId) : Build NodeId := do
  let equal ← token .equal
  node kind [(Slot.pairKey, key), (1, equal), (Slot.pairValue, value)]

def recordPairs (pairKind : NodeKind) : List (String × NodeId) → Build (List NodeId)
  | [] => pure []
  | (name, value) :: rest => do
    let key ← generalizedIdentifier name
    let first ← pair pairKind key value
    let others ← recordPairs pairKind rest
    return first :: others

def record (kind pairKind : NodeKind) (pairs : List (String × NodeId)) : Build NodeId := do
  let pairs ← recordPairs pairKind pairs
  let content ← csvArray pairs
  wrapped kind .leftBracket content .rightBracket false

def recordExpression (pairs : List (String × NodeId)) : Build NodeId :=
  record .recordExpression .generalizedIdentifierPairedExpression pairs

def recordLiteral (pairs : List (String × NodeId)) : Build NodeId :=
  record .recordLiteral .generalizedIdentifierPairedAnyLiteral pairs

def identifierPairedExpression (name : String) (value : NodeId) : Build NodeId := do
  let key ← identifier name
  pair .identifierPairedExpression key value

def letPairs : List (String × NodeId) → Build (List NodeId)
  | [] => pure []
  | (name, value) :: rest => do
    let first ← identifierPairedExpression name value
    let others ← letPairs rest
    return first :: others

def letExpression (bindings : List (String × NodeId)) (body : NodeId) : Build NodeId := do
  let pairs ← letPairs bindings
  let letWord ← token .letWord
  let pairs ← csvArray pairs
  let inWord ← token .inWord
  node .letExpression
    [(0, letWord), (Slot.letBindings, pairs), (2, inWord), (Slot.letBody, body)]

def eachExpression (body : NodeId) : Build NodeId := do
  let eachWord ← token .eachWord
  node .eachExpression [(0, eachWord), (Slot.eachBody, body)]

def binaryOperation (kind : NodeKind) (left : NodeId) (operator : Token) (right : NodeId) :
    Build NodeId := do
  let operator ← token operator
  node kind [(Slot.leftOperand, left), (Slot.operator, operator), (Slot.rightOperand, right)]

def tokens : List Token → Build (List NodeId)
  | [] => pure []
  | first :: rest => do
    let first ← token first
    let others ← tokens rest
    return first :: others

def unary (operators : List Token) (operand : NodeId) : Build NodeId := do
  let operators ← tokens operators
  let operators ← array operators
  node .unaryExpression [(Slot.unaryOperators, operators), (Slot.unaryOperand, operand)]

def ifExpression (condition whenTrue whenFalse : NodeId) : Build NodeId := do
  let ifWord ← token .ifWord
  let thenWord ← token .thenWord
  let elseWord ← token .elseWord
  node .ifExpression
    [(0, ifWord), (Slot.ifCondition, condition), (2, thenWord), (Slot.ifTrue, whenTrue),
      (4, elseWord), (Slot.ifFalse, whenFalse)]

def asExpression (left right : NodeId) : Build NodeId :=
  binaryOperation .asExpression left .asWord right

def isExpression (left right : NodeId) : Build NodeId :=
  binaryOperation .isExpression left .isWord right

def optionalMark (isOptional : Bool) : Build (List (Nat × NodeId)) :=
  if isOptional then do
    let optionalWord ← token .optionalWord
    return [(Slot.parameterOptional, optionalWord)]
  else pure []

def ascription (slot : Nat) (declared? : Option (PrimitiveName × Bool)) :
    Build (List (Nat × NodeId)) :=
  match declared? with
  | some (primitive, isNullable) => do
    let ascription ← asNullablePrimitiveType primitive isNullable
    return [(slot, ascription)]
  | none => pure []

def parameter (name : String) (isOptional : Bool) (declared? : Option (PrimitiveName × Bool)) :
    Build NodeId := do
  let mark ← optionalMark isOptional
  let name ← identifier name
  let ascription ← ascription Slot.parameterType declared?
  node .parameter (mark ++ [(Slot.parameterName, name)] ++ ascription)

def parameterList (parameters : List NodeId) : Build NodeId := do
  let content ← csvArray parameters
  wrapped .parameterList .leftParenthesis content .rightParenthesis false

def functionExpression (parameters : List NodeId) (declared? : Option (PrimitiveName × Bool))
    (body : NodeId) : Build NodeId := do
  let parameters ← parameterList parameters
  let ascription ← ascription Slot.functionReturnType declared?
  let arrow ← token .fatArrow
  node .functionExpression
    ([(Slot.functionParameters, parameters)] ++ ascription ++
      [(Slot.functionArrow, arrow), (Slot.functionBody, body)])

def recursivePrimary (head : NodeId) (tail : List NodeId) : Build NodeId := do
  let tail ← array tail
  node .recursivePrimaryExpression [(Slot.chainHead, head), (Slot.chainTail, tail)]

def invoke (arguments : List NodeId) : Build NodeId := do
  let content ← csvArray arguments
  wrapped .invokeExpression .leftParenthesis content .rightParenthesis false

def fieldSelector (name : String) (isOptional : Bool) : Build NodeId := do
  let name ← generalizedIdentifier name
  wrapped .fieldSelector .leftBracket name .rightBracket isOptional

def fieldSelectors : List String → Build (List NodeId)
  | [] => pure []
  | name :: rest => do
    let first ← fieldSelector name false
    let others ← fieldSelectors rest
    return first :: others

def fieldProjection (names : List String) (isOptional : Bool) : Build NodeId := do
  let selectors ← fieldSelectors names
  let content ← csvArray selectors
  wrapped .fieldProjection .leftBracket content .rightBracket isOptional

def itemAccess (index : NodeId) (isOptional : Bool) : Build NodeId :=
  wrapped .itemAccessExpression .leftBrace index .rightBrace isOptional

def sectionMemberNodes : List (String × NodeId) → Build (List NodeId)
  | [] => pure []
  | (name, value) :: rest => do
    let sharedWord ← token .sharedWord
    let pair ← identifierPairedExpression name value
    let semicolon ← token .semicolon
    let first ← node .sectionMember
      [(1, sharedWord), (Slot.sectionMemberPair, pair), (3, semicolon)]
    let others ← sectionMemberNodes rest
    return first :: others

def sectionOf (members : List (String × NodeId)) : Build NodeId := do
  let members ← sectionMemberNodes members
  let sectionWord ← token .sectionWord
  let semicolon ← token .semicolon
  let members ← array members
  node .section [(1, sectionWord), (3, semicolon), (Slot.sectionMembers, members)]

def fieldSpecification (name : String) (isOptional : Bool) (type? : Option NodeId) :
    Build NodeId := do
  let mark ← optionalMark isOptional
  let name ← generalizedIdentifier name
  let children := mark ++ [(Slot.fieldName, name)]
  match type? with
  | some fieldType => do
    let equal ← token .equal
    let specification ← node .fieldTypeSpecification [(0, equal), (Slot.paired, fieldType)]
    node .fieldSpecification (children ++ [(Slot.fieldType, specification)])
  | none => node .fieldSpecification children

def fieldSpecifications : List (String × Option NodeId) → Build (List NodeId)
  | [] => pure []
  | (name, type?) :: rest => do
    let first ← fieldSpecification name false type?
    let others ← fieldSpecifications rest
    return first :: others

def fieldSpecificationList (fields : List (String × Option NodeId)) (isOpen : Bool) :
    Build NodeId := do
  let specifications ← fieldSpecifications fields
  let opening ← token .leftBracket
  let content ← csvArray specifications
  let closing ← token .rightBracket
  let children := [(0, opening), (Slot.wrappedContent, content), (2, closing)]
  if isOpen then
    let ellipsis ← token .ellipsis
    node .fieldSpecificationList (children ++ [(Slot.openMarker, ellipsis)])
  else node .fieldSpecificationList children

def recordType (fields : List (String × Option NodeId)) (isOpen : Bool) : Build NodeId := do
  let fields ← fieldSpecificationList fields isOpen
  node .recordType [(Slot.recordTypeFields, fields)]

def tableType (fields : List (String × Option NodeId)) (isOpen : Bool) : Build NodeId := do
  let tableWord ← token .tableWord
  let fields ← fieldSpecificationList fields isOpen
  node .tableType [(0, tableWord), (Slot.tableRowType, fields)]

def listType (item : NodeId) : Build NodeId :=
  wrapped .listType .leftBrace item .rightBrace false

def keywordPaired (kind : NodeKind) (keyword : Token) (inner : NodeId) : Build NodeId := do
  let keyword ← token keyword
  node kind [(0, keyword), (Slot.paired, inner)]

def nullableType (inner : NodeId) : Build NodeId :=
  keywordPaired .nullableType .nullableWord inner

def typePrimary (inner : NodeId) : Build NodeId :=
  keywordPaired .typePrimaryType .typeWord inner

def asType (inner : NodeId) : Build NodeId :=
  keywordPaired .asType .asWord inner

def typeParameter (name : String) (isOptional : Bool) (parameterType : NodeId) : Build NodeId := do
  let mark ← optionalMark isOptional
  let name ← identifier name
  let ascription ← asType parameterType
  node .parameter (mark ++ [(Slot.parameterName, name), (Slot.parameterType, ascription)])

def functionType (parameters : List NodeId) (returnType : NodeId) : Build NodeId := do
  let functionWord ← token .functionWord
  let parameters ← parameterList parameters
  let returnType ← asType returnType
  node .functionType
    [(0, functionWord), (Slot.functionTypeParameters, parameters),
      (Slot.functionTypeReturn, returnType)]

end Builder

end FormulaInspection
