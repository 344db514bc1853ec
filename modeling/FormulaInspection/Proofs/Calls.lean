import FormulaInspection.Proofs.WrittenChains
import FormulaInspection.Proofs.WrittenDeclarations

/-!
The calls that a builder takes. Each one attaches the nodes that it is given, and all that it makes
besides its result, exactly once.
-/

namespace FormulaInspection

namespace Builder

inductive Call where
  | ast (kind : NodeKind) (payload : Payload) (children : List (Nat × NodeId))
  | context (kind : NodeKind) (children : List (Nat × NodeId))
  | token (symbol : Token)
  | identifier (name : String)
  | generalizedIdentifier (name : String)
  | literal (kind : LiteralKind) (text : String)
  | numericLiteral (text : String)
  | textLiteral (text : String)
  | logicalLiteral (value : Bool)
  | nullLiteral
  | primitiveType (primitive : PrimitiveName)
  | identifierExpression (name : String)
  | inclusiveIdentifierExpression (name : String)
  | nullablePrimitiveType (primitive : PrimitiveName)
  | asNullablePrimitiveType (primitive : PrimitiveName) (isNullable : Bool)
  | array (elements : List NodeId)
  | csvArray (elements : List NodeId)
  | parenthesized (inner : NodeId)
  | listExpression (elements : List NodeId)
  | recordExpression (pairs : List (String × NodeId))
  | recordLiteral (pairs : List (String × NodeId))
  | identifierPairedExpression (name : String) (value : NodeId)
  | letExpression (bindings : List (String × NodeId)) (body : NodeId)
  | eachExpression (body : NodeId)
  | binaryOperation (kind : NodeKind) (left : NodeId) (operator : Token) (right : NodeId)
  | unary (operators : List Token) (operand : NodeId)
  | ifExpression (condition whenTrue whenFalse : NodeId)
  | asExpression (left right : NodeId)
  | isExpression (left right : NodeId)
  | parameter (name : String) (isOptional : Bool) (declared? : Option (PrimitiveName × Bool))
  | parameterList (parameters : List NodeId)
  | functionExpression (parameters : List NodeId) (declared? : Option (PrimitiveName × Bool))
      (body : NodeId)
  | recursivePrimary (head : NodeId) (tail : List NodeId)
  | invoke (arguments : List NodeId)
  | fieldSelector (name : String) (isOptional : Bool)
  | fieldProjection (names : List String) (isOptional : Bool)
  | itemAccess (index : NodeId) (isOptional : Bool)
  | sectionOf (members : List (String × NodeId))
  | fieldSpecification (name : String) (isOptional : Bool) (type? : Option NodeId)
  | fieldSpecificationList (fields : List (String × Option NodeId)) (isOpen : Bool)
  | recordType (fields : List (String × Option NodeId)) (isOpen : Bool)
  | tableType (fields : List (String × Option NodeId)) (isOpen : Bool)
  | listType (item : NodeId)
  | nullableType (inner : NodeId)
  | typePrimary (inner : NodeId)
  | asType (inner : NodeId)
  | typeParameter (name : String) (isOptional : Bool) (parameterType : NodeId)
  | functionType (parameters : List NodeId) (returnType : NodeId)

namespace Call

def run : Call → Build NodeId
  | .ast kind payload children => Builder.ast kind payload children
  | .context kind children => Builder.context kind children
  | .token symbol => Builder.token symbol
  | .identifier name => Builder.identifier name
  | .generalizedIdentifier name => Builder.generalizedIdentifier name
  | .literal kind text => Builder.literal kind text
  | .numericLiteral text => Builder.numericLiteral text
  | .textLiteral text => Builder.textLiteral text
  | .logicalLiteral value => Builder.logicalLiteral value
  | .nullLiteral => Builder.nullLiteral
  | .primitiveType primitive => Builder.primitiveType primitive
  | .identifierExpression name => Builder.identifierExpression name
  | .inclusiveIdentifierExpression name => Builder.inclusiveIdentifierExpression name
  | .nullablePrimitiveType primitive => Builder.nullablePrimitiveType primitive
  | .asNullablePrimitiveType primitive isNullable =>
    Builder.asNullablePrimitiveType primitive isNullable
  | .array elements => Builder.array elements
  | .csvArray elements => Builder.csvArray elements
  | .parenthesized inner => Builder.parenthesized inner
  | .listExpression elements => Builder.listExpression elements
  | .recordExpression pairs => Builder.recordExpression pairs
  | .recordLiteral pairs => Builder.recordLiteral pairs
  | .identifierPairedExpression name value => Builder.identifierPairedExpression name value
  | .letExpression bindings body => Builder.letExpression bindings body
  | .eachExpression body => Builder.eachExpression body
  | .binaryOperation kind left operator right => Builder.binaryOperation kind left operator right
  | .unary operators operand => Builder.unary operators operand
  | .ifExpression condition whenTrue whenFalse =>
    Builder.ifExpression condition whenTrue whenFalse
  | .asExpression left right => Builder.asExpression left right
  | .isExpression left right => Builder.isExpression left right
  | .parameter name isOptional declared? => Builder.parameter name isOptional declared?
  | .parameterList parameters => Builder.parameterList parameters
  | .functionExpression parameters declared? body =>
    Builder.functionExpression parameters declared? body
  | .recursivePrimary head tail => Builder.recursivePrimary head tail
  | .invoke arguments => Builder.invoke arguments
  | .fieldSelector name isOptional => Builder.fieldSelector name isOptional
  | .fieldProjection names isOptional => Builder.fieldProjection names isOptional
  | .itemAccess index isOptional => Builder.itemAccess index isOptional
  | .sectionOf members => Builder.sectionOf members
  | .fieldSpecification name isOptional type? => Builder.fieldSpecification name isOptional type?
  | .fieldSpecificationList fields isOpen => Builder.fieldSpecificationList fields isOpen
  | .recordType fields isOpen => Builder.recordType fields isOpen
  | .tableType fields isOpen => Builder.tableType fields isOpen
  | .listType item => Builder.listType item
  | .nullableType inner => Builder.nullableType inner
  | .typePrimary inner => Builder.typePrimary inner
  | .asType inner => Builder.asType inner
  | .typeParameter name isOptional parameterType =>
    Builder.typeParameter name isOptional parameterType
  | .functionType parameters returnType => Builder.functionType parameters returnType

def given : Call → List NodeId
  | .ast _ _ children | .context _ children => children.map (·.2)
  | .array elements | .csvArray elements | .listExpression elements => elements
  | .recordExpression pairs | .recordLiteral pairs | .sectionOf pairs => pairs.map (·.2)
  | .letExpression bindings body => bindings.map (·.2) ++ [body]
  | .binaryOperation _ left _ right | .asExpression left right | .isExpression left right =>
    [left, right]
  | .ifExpression condition whenTrue whenFalse => [condition, whenTrue, whenFalse]
  | .parameterList parameters | .invoke parameters => parameters
  | .functionExpression parameters _ last | .functionType parameters last => parameters ++ [last]
  | .recursivePrimary head tail => head :: tail
  | .fieldSpecification _ _ type? => type?.toList
  | .fieldSpecificationList fields _ | .recordType fields _ | .tableType fields _ =>
    fields.flatMap (·.2.toList)
  | .parenthesized inner | .identifierPairedExpression _ inner | .eachExpression inner
  | .unary _ inner | .itemAccess inner _ | .listType inner | .nullableType inner
  | .typePrimary inner | .asType inner | .typeParameter _ _ inner => [inner]
  | .token _ | .identifier _ | .generalizedIdentifier _ | .literal _ _ | .numericLiteral _
  | .textLiteral _ | .logicalLiteral _ | .nullLiteral | .primitiveType _ | .identifierExpression _
  | .inclusiveIdentifierExpression _ | .nullablePrimitiveType _ | .asNullablePrimitiveType _ _
  | .parameter _ _ _ | .fieldSelector _ _ | .fieldProjection _ _ => []

end Call

abbrev Uses (pool : List NodeId) (build : Build NodeId) : Prop :=
  Makes pool build fun _ _ => True

variable {α : Type} {pool : List NodeId} {build : Build α} {made : α → List NodeId}
  {told : Graph → α → Prop}

theorem Assembles.forget (assembles : Assembles pool build made told) :
    Assembles pool build made fun _ _ => True :=
  assembles.weaken fun _ _ _ _ => trivial

theorem Assembles.node {told : Graph → NodeId → Prop} {kind : NodeKind}
    {children : List (Nat × NodeId)} (kept : (children.map (·.2)).Perm pool)
    (tells : ∀ graph id, told graph id) : Makes pool (node kind children) told :=
  @Assembles.of_step pool ⟨kind, some .none, children⟩ told kept fun graph _ id _ => tells graph id

theorem tokens_assembles (tokens : List Token) :
    Assembles [] (Builder.tokens tokens) (fun ids => ids) fun _ _ => True := by
  induction tokens with
  | nil => exact .pure (.refl _) fun _ => trivial
  | cons first rest ih => exact (leaf_makes _ _).cons ih fun _ _ _ _ _ => trivial

theorem listExpression_uses (elements : List NodeId) : Uses elements (listExpression elements) := by
  apply (csvArray_makes elements).bindAll
  intro content
  exact (wrapped_makes _ _ content _ _).weaken fun _ _ _ _ _ => trivial

theorem keywordPaired_uses (kind : NodeKind) (keyword : Token) (inner : NodeId) :
    Uses [inner] (keywordPaired kind keyword inner) := by
  apply Assembles.bindNew (leaf_makes _ _)
  intro keywordId
  exact .node (by grind) (by simp)

theorem binaryOperation_uses (kind : NodeKind) (left : NodeId) (operator : Token) (right : NodeId) :
    Uses [left, right] (binaryOperation kind left operator right) := by
  apply Assembles.bindNew (leaf_makes _ _)
  intro operatorId
  exact .node (by grind) (by simp)

theorem identifierExpression_uses (name : String) : Uses [] (identifierExpression name) := by
  apply Assembles.bindAll (leaf_makes _ _)
  intro identifier
  exact .node (.refl _) (by simp)

theorem inclusiveIdentifierExpression_uses (name : String) :
    Uses [] (inclusiveIdentifierExpression name) := by
  apply Assembles.bindAll (leaf_makes _ _)
  intro mark
  apply Assembles.bindNew (leaf_makes _ _)
  intro identifier
  exact .node (by grind) (by simp)

theorem eachExpression_uses (body : NodeId) : Uses [body] (eachExpression body) := by
  apply Assembles.bindNew (leaf_makes _ _)
  intro eachWord
  exact .node (by grind) (by simp)

theorem unary_uses (operators : List Token) (operand : NodeId) :
    Uses [operand] (unary operators operand) := by
  apply Assembles.bindNew (tokens_assembles operators)
  intro ids
  apply (array_makes ids).bind
  intro array
  exact .node (by grind) (by simp)

theorem ifExpression_uses (condition whenTrue whenFalse : NodeId) :
    Uses [condition, whenTrue, whenFalse] (ifExpression condition whenTrue whenFalse) := by
  apply Assembles.bindNew (leaf_makes _ _)
  intro ifWord
  apply Assembles.bindNew (leaf_makes _ _)
  intro thenWord
  apply Assembles.bindNew (leaf_makes _ _)
  intro elseWord
  exact .node (by grind) (by simp)

theorem recordType_uses (fields : List (String × Option NodeId)) (isOpen : Bool) :
    Uses (fields.flatMap (·.2.toList)) (recordType fields isOpen) := by
  apply (fieldSpecificationList_makes fields isOpen).bindAll
  intro list
  exact .node (.refl _) (by simp)

theorem tableType_uses (fields : List (String × Option NodeId)) (isOpen : Bool) :
    Uses (fields.flatMap (·.2.toList)) (tableType fields isOpen) := by
  apply Assembles.bindNew (leaf_makes _ _)
  intro tableWord
  apply Assembles.bindPart List.perm_append_comm (fieldSpecificationList_makes fields isOpen)
  intro list
  exact .node (by grind) (by simp)

theorem typeParameter_uses (name : String) (isOptional : Bool) (parameterType : NodeId) :
    Uses [parameterType] (typeParameter name isOptional parameterType) := by
  apply Assembles.afterMark
  intro mark _
  apply Assembles.bindNew (leaf_makes _ _)
  intro nameId
  apply Assembles.bindPart
    (by grind : List.Perm _ ([parameterType] ++ (nameId :: mark.map (·.2))))
    (keywordPaired_uses _ _ parameterType)
  intro ascription
  exact .node (by grind) (by simp)

theorem functionType_uses (parameters : List NodeId) (returnType : NodeId) :
    Uses (parameters ++ [returnType]) (functionType parameters returnType) := by
  apply Assembles.bindNew (leaf_makes _ _)
  intro functionWord
  apply Assembles.bindPart
    (by grind : List.Perm _ (parameters ++ [functionWord, returnType]))
    (parameterList_makes parameters)
  intro list
  apply Assembles.bindPart (by grind : List.Perm _ ([returnType] ++ [list, functionWord]))
    (keywordPaired_uses _ _ returnType)
  intro ascription
  exact .node (by grind) (by simp)

namespace Call

theorem makes (call : Call) : Uses call.given call.run := by
  cases call with
  | ast kind payload children =>
      exact @Assembles.of_step _ ⟨kind, some payload, children⟩ _ (.refl _) fun _ _ _ _ => trivial
  | context kind children =>
      exact @Assembles.of_step _ ⟨kind, none, children⟩ _ (.refl _) fun _ _ _ _ => trivial
  | token symbol => exact (leaf_makes _ _).forget
  | identifier name => exact (leaf_makes _ _).forget
  | generalizedIdentifier name => exact (leaf_makes _ _).forget
  | literal kind text => exact (leaf_makes _ _).forget
  | numericLiteral text => exact (leaf_makes _ _).forget
  | textLiteral text => exact (leaf_makes _ _).forget
  | logicalLiteral value => exact (leaf_makes _ _).forget
  | nullLiteral => exact (leaf_makes _ _).forget
  | primitiveType primitive => exact (leaf_makes _ _).forget
  | identifierExpression name => exact identifierExpression_uses name
  | inclusiveIdentifierExpression name => exact inclusiveIdentifierExpression_uses name
  | nullablePrimitiveType primitive => exact (nullablePrimitiveType_makes primitive).forget
  | asNullablePrimitiveType primitive isNullable =>
      exact (asNullablePrimitiveType_makes primitive isNullable).forget
  | array elements => exact (array_makes elements).forget
  | csvArray elements => exact (csvArray_makes elements).forget
  | parenthesized inner => exact (wrapped_makes _ _ inner _ _).forget
  | listExpression elements => exact listExpression_uses elements
  | recordExpression pairs => exact (record_makes _ (by decide) pairs).forget
  | recordLiteral pairs => exact (record_makes _ (by decide) pairs).forget
  | identifierPairedExpression name value =>
      exact (keyedPair_makes name value (by decide) (by decide)).forget
  | letExpression bindings body => exact (letExpression_makes bindings body).forget
  | eachExpression body => exact eachExpression_uses body
  | binaryOperation kind left operator right => exact binaryOperation_uses kind left operator right
  | unary operators operand => exact unary_uses operators operand
  | ifExpression condition whenTrue whenFalse =>
      exact ifExpression_uses condition whenTrue whenFalse
  | asExpression left right => exact binaryOperation_uses _ left _ right
  | isExpression left right => exact binaryOperation_uses _ left _ right
  | parameter name isOptional declared? =>
      exact (parameter_makes name isOptional declared?).forget
  | parameterList parameters => exact (parameterList_makes parameters).forget
  | functionExpression parameters declared? body =>
      exact (functionExpression_makes parameters declared? body).forget
  | recursivePrimary head tail => exact (recursivePrimary_makes head tail).forget
  | invoke arguments => exact (invoke_makes arguments).forget
  | fieldSelector name isOptional => exact (fieldSelector_makes name isOptional).forget
  | fieldProjection names isOptional => exact (fieldProjection_makes names isOptional).forget
  | itemAccess index isOptional => exact (itemAccess_makes index isOptional).forget
  | sectionOf members => exact (sectionOf_makes members).forget
  | fieldSpecification name isOptional type? =>
      exact (fieldSpecification_makes name isOptional type?).forget
  | fieldSpecificationList fields isOpen =>
      exact (fieldSpecificationList_makes fields isOpen).forget
  | recordType fields isOpen => exact recordType_uses fields isOpen
  | tableType fields isOpen => exact tableType_uses fields isOpen
  | listType item => exact (wrapped_makes _ _ item _ _).forget
  | nullableType inner => exact keywordPaired_uses _ _ inner
  | typePrimary inner => exact keywordPaired_uses _ _ inner
  | asType inner => exact keywordPaired_uses _ _ inner
  | typeParameter name isOptional parameterType =>
      exact typeParameter_uses name isOptional parameterType
  | functionType parameters returnType => exact functionType_uses parameters returnType

theorem performs (call : Call) (steps : List Step) :
    ∃ more, (call.run (perform steps .empty)).2 = perform (steps ++ more) .empty ∧
      Consumes steps.length call.given more [(call.run (perform steps .empty)).1] := by
  obtain ⟨more, performed, consumes, -⟩ := call.makes (perform steps .empty)
  rw [(numbered_perform steps).lastId] at consumes
  exact ⟨more, by rw [perform_append, performed], consumes⟩

end Call

def after (calls : List Call) : Builder :=
  calls.foldl (fun builder call => (call.run builder).2) .empty

end Builder

end FormulaInspection
