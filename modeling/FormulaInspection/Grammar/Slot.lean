/-!
The places that children take inside the constructs of the grammar.
-/

namespace FormulaInspection.Slot

@[match_pattern] abbrev eachBody : Nat := 1

@[match_pattern] abbrev functionParameters : Nat := 0
@[match_pattern] abbrev functionReturnType : Nat := 1
@[match_pattern] abbrev functionArrow : Nat := 2
@[match_pattern] abbrev functionBody : Nat := 3

@[match_pattern] abbrev letBindings : Nat := 1
@[match_pattern] abbrev letBody : Nat := 3

@[match_pattern] abbrev ifCondition : Nat := 1
@[match_pattern] abbrev ifTrue : Nat := 3
@[match_pattern] abbrev ifFalse : Nat := 5

@[match_pattern] abbrev leftOperand : Nat := 0
@[match_pattern] abbrev operator : Nat := 1
@[match_pattern] abbrev rightOperand : Nat := 2

@[match_pattern] abbrev unaryOperators : Nat := 0
@[match_pattern] abbrev unaryOperand : Nat := 1

@[match_pattern] abbrev wrappedContent : Nat := 1
@[match_pattern] abbrev wrappedOptional : Nat := 3
@[match_pattern] abbrev openMarker : Nat := 3

@[match_pattern] abbrev csvNode : Nat := 0

@[match_pattern] abbrev pairKey : Nat := 0
@[match_pattern] abbrev pairValue : Nat := 2

@[match_pattern] abbrev inclusiveMark : Nat := 0
@[match_pattern] abbrev identifier : Nat := 1

@[match_pattern] abbrev sectionMembers : Nat := 4
@[match_pattern] abbrev sectionMemberPair : Nat := 2

@[match_pattern] abbrev parameterOptional : Nat := 0
@[match_pattern] abbrev parameterName : Nat := 1
@[match_pattern] abbrev parameterType : Nat := 2

@[match_pattern] abbrev chainHead : Nat := 0
@[match_pattern] abbrev chainTail : Nat := 1

@[match_pattern] abbrev paired : Nat := 1

@[match_pattern] abbrev fieldOptional : Nat := 0
@[match_pattern] abbrev fieldName : Nat := 1
@[match_pattern] abbrev fieldType : Nat := 2

@[match_pattern] abbrev recordTypeFields : Nat := 0
@[match_pattern] abbrev tableRowType : Nat := 1
@[match_pattern] abbrev functionTypeParameters : Nat := 1
@[match_pattern] abbrev functionTypeReturn : Nat := 2

@[match_pattern] abbrev protectedExpression : Nat := 1
@[match_pattern] abbrev otherwiseHandler : Nat := 2

end FormulaInspection.Slot
