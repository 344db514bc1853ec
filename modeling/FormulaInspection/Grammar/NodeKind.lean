/-!
The kinds of node a parsed formula is made of, complete or not.
-/

namespace FormulaInspection

inductive NodeKind where
  | arithmeticExpression
  | arrayWrapper
  | asExpression
  | asNullablePrimitiveType
  | asType
  | constant
  | csv
  | eachExpression
  | equalityExpression
  | errorHandlingExpression
  | errorRaisingExpression
  | fieldProjection
  | fieldSelector
  | fieldSpecification
  | fieldSpecificationList
  | fieldTypeSpecification
  | functionExpression
  | functionType
  | generalizedIdentifier
  | generalizedIdentifierPairedAnyLiteral
  | generalizedIdentifierPairedExpression
  | identifier
  | identifierExpression
  | identifierPairedExpression
  | ifExpression
  | invokeExpression
  | isExpression
  | isNullablePrimitiveType
  | itemAccessExpression
  | letExpression
  | listExpression
  | listLiteral
  | listType
  | literalExpression
  | logicalExpression
  | metadataExpression
  | notImplementedExpression
  | nullCoalescingExpression
  | nullablePrimitiveType
  | nullableType
  | otherwiseExpression
  | parameter
  | parameterList
  | parenthesizedExpression
  | primitiveType
  | rangeExpression
  | recordExpression
  | recordLiteral
  | recordType
  | recursivePrimaryExpression
  | relationalExpression
  | section
  | sectionMember
  | tableType
  | typePrimaryType
  | unaryExpression
  deriving DecidableEq, Inhabited

namespace NodeKind

def name : NodeKind → String
  | .arithmeticExpression => "ArithmeticExpression"
  | .arrayWrapper => "ArrayWrapper"
  | .asExpression => "AsExpression"
  | .asNullablePrimitiveType => "AsNullablePrimitiveType"
  | .asType => "AsType"
  | .constant => "Constant"
  | .csv => "Csv"
  | .eachExpression => "EachExpression"
  | .equalityExpression => "EqualityExpression"
  | .errorHandlingExpression => "ErrorHandlingExpression"
  | .errorRaisingExpression => "ErrorRaisingExpression"
  | .fieldProjection => "FieldProjection"
  | .fieldSelector => "FieldSelector"
  | .fieldSpecification => "FieldSpecification"
  | .fieldSpecificationList => "FieldSpecificationList"
  | .fieldTypeSpecification => "FieldTypeSpecification"
  | .functionExpression => "FunctionExpression"
  | .functionType => "FunctionType"
  | .generalizedIdentifier => "GeneralizedIdentifier"
  | .generalizedIdentifierPairedAnyLiteral => "GeneralizedIdentifierPairedAnyLiteral"
  | .generalizedIdentifierPairedExpression => "GeneralizedIdentifierPairedExpression"
  | .identifier => "Identifier"
  | .identifierExpression => "IdentifierExpression"
  | .identifierPairedExpression => "IdentifierPairedExpression"
  | .ifExpression => "IfExpression"
  | .invokeExpression => "InvokeExpression"
  | .isExpression => "IsExpression"
  | .isNullablePrimitiveType => "IsNullablePrimitiveType"
  | .itemAccessExpression => "ItemAccessExpression"
  | .letExpression => "LetExpression"
  | .listExpression => "ListExpression"
  | .listLiteral => "ListLiteral"
  | .listType => "ListType"
  | .literalExpression => "LiteralExpression"
  | .logicalExpression => "LogicalExpression"
  | .metadataExpression => "MetadataExpression"
  | .notImplementedExpression => "NotImplementedExpression"
  | .nullCoalescingExpression => "NullCoalescingExpression"
  | .nullablePrimitiveType => "NullablePrimitiveType"
  | .nullableType => "NullableType"
  | .otherwiseExpression => "OtherwiseExpression"
  | .parameter => "Parameter"
  | .parameterList => "ParameterList"
  | .parenthesizedExpression => "ParenthesizedExpression"
  | .primitiveType => "PrimitiveType"
  | .rangeExpression => "RangeExpression"
  | .recordExpression => "RecordExpression"
  | .recordLiteral => "RecordLiteral"
  | .recordType => "RecordType"
  | .recursivePrimaryExpression => "RecursivePrimaryExpression"
  | .relationalExpression => "RelationalExpression"
  | .section => "Section"
  | .sectionMember => "SectionMember"
  | .tableType => "TableType"
  | .typePrimaryType => "TypePrimaryType"
  | .unaryExpression => "UnaryExpression"

def all : List NodeKind :=
  [ .arithmeticExpression, .arrayWrapper, .asExpression, .asNullablePrimitiveType, .asType,
    .constant, .csv, .eachExpression, .equalityExpression, .errorHandlingExpression,
    .errorRaisingExpression, .fieldProjection, .fieldSelector, .fieldSpecification,
    .fieldSpecificationList, .fieldTypeSpecification, .functionExpression, .functionType,
    .generalizedIdentifier, .generalizedIdentifierPairedAnyLiteral,
    .generalizedIdentifierPairedExpression, .identifier, .identifierExpression,
    .identifierPairedExpression, .ifExpression, .invokeExpression, .isExpression,
    .isNullablePrimitiveType, .itemAccessExpression, .letExpression, .listExpression,
    .listLiteral, .listType, .literalExpression, .logicalExpression, .metadataExpression,
    .notImplementedExpression, .nullCoalescingExpression, .nullablePrimitiveType, .nullableType,
    .otherwiseExpression, .parameter, .parameterList, .parenthesizedExpression, .primitiveType,
    .rangeExpression, .recordExpression, .recordLiteral, .recordType, .recursivePrimaryExpression,
    .relationalExpression, .section, .sectionMember, .tableType, .typePrimaryType,
    .unaryExpression]

def ofName? (text : String) : Option NodeKind :=
  all.find? fun kind => kind.name == text

def isBinaryOperation : NodeKind → Bool
  | .arithmeticExpression | .equalityExpression | .logicalExpression | .relationalExpression => true
  | _ => false

def isKeyValuePair : NodeKind → Bool
  | .generalizedIdentifierPairedAnyLiteral
  | .generalizedIdentifierPairedExpression
  | .identifierPairedExpression => true
  | _ => false

end NodeKind

end FormulaInspection
