import FormulaInspection.Graph.Builder
import FormulaInspection.Proofs.Evaluation
import FormulaInspection.Proofs.LookUp
import FormulaInspection.Proofs.NormalTypes

/-!
Inference keeps types in normal form. A rule that is told normal types answers with a normal type,
and an evaluation that knows normal types only comes to know no others.
-/

namespace FormulaInspection

namespace Demand

variable {α β : Type}

/-- As long as it is told normal types, the computation answers with the property `post`, if it
answers at all. -/
def Yields (post : α → Prop) : Demand α → Prop
  | .answer value => post value
  | .fail _ => True
  | .typeOf _ next => ∀ ty : Ty, ty.Normal → (next ty).Yields post
  | .binding _ _ next => ∀ item?, (next item?).Yields post
  | .poll next => next.Yields post

namespace Yields

variable {post : α → Prop} {later : β → Prop}

theorem bind {demand : Demand α} {next : α → Demand β} (first : demand.Yields post)
    (rest : ∀ value, post value → (next value).Yields later) : (demand >>= next).Yields later := by
  change (demand.bind next).Yields later
  induction demand with
  | answer value => exact rest value first
  | fail failure => trivial
  | typeOf node onward ih => exact fun ty normal => ih ty (first ty normal)
  | binding node name onward ih => exact fun item? => ih item? (first item?)
  | poll onward ih => exact ih first

theorem anything (demand : Demand α) : demand.Yields fun _ => True := by
  induction demand with
  | answer value => trivial
  | fail failure => trivial
  | typeOf node onward ih => exact fun ty _ => ih ty
  | binding node name onward ih => exact ih
  | poll onward ih => exact ih

theorem read {reading : Except InspectionError α} {next : α → Demand β}
    (rest : ∀ value, (next value).Yields later) :
    ((liftM reading : Demand α) >>= next).Yields later := by
  cases reading with
  | ok value => exact rest value
  | error failure => trivial

theorem askType (node : Node) : (Demand.askType node).Yields Ty.Normal :=
  fun _ normal => normal

theorem askTypes (nodes : List Node) :
    (Demand.askTypes nodes).Yields fun types => ∀ ty ∈ types, ty.Normal := by
  induction nodes with
  | nil =>
      intro ty member
      simp at member
  | cons node rest ih =>
      refine (askType node).bind fun first normal => ?_
      refine ih.bind fun others normalOthers ty member => ?_
      rcases List.mem_cons.mp member with rfl | inOthers
      · exact normal
      · exact normalOthers ty inOthers

end Yields

end Demand

namespace Graph

open Demand

variable (graph : Graph) (node : Node)

theorem typeAt_yields (id : NodeId) : (graph.typeAt id).Yields Ty.Normal :=
  Yields.read fun found => Yields.askType found

theorem childType_yields (slot : Nat) : (graph.childType node slot).Yields Ty.Normal := by
  refine Yields.read fun child? => ?_
  cases child? with
  | some child => exact Yields.askType child
  | none => exact Ty.normal_of .unknown

theorem literalType_yields : (literalType node).Yields Ty.Normal := by
  unfold literalType
  split
  · exact Ty.normal_of .logical
  · exact Ty.normal_of .null
  · exact Ty.normal_of .number
  · exact Ty.normal_of .text
  · split
    · trivial
    · exact Ty.normal_of .unknown

theorem primitiveType_yields : (primitiveType node).Yields Ty.Normal := by
  unfold primitiveType
  split
  · exact Ty.normal_of _
  · split
    · trivial
    · exact Ty.normal_of .unknown

theorem operationType_yields : (graph.operationType node).Yields Ty.Normal := by
  refine Yields.read fun leftNode? => ?_
  cases leftNode? with
  | none => exact Ty.normal_of .unknown
  | some leftNode =>
      refine (Yields.askType leftNode).bind fun left normalLeft => ?_
      refine Yields.read fun operatorNode? => ?_
      cases operatorNode?.bind Node.token? with
      | none => exact Ty.normal_of .unknown
      | some operator =>
          refine Yields.read fun rightNode? => ?_
          cases rightNode? with
          | none => exact Ty.operandHint_normal left operator
          | some rightNode =>
              refine (Yields.askType rightNode).bind fun right normalRight => ?_
              exact normalLeft.operate normalRight operator

theorem unaryType_yields : (graph.unaryType node).Yields Ty.Normal := by
  refine (graph.childType_yields node _).bind fun operand normal => ?_
  split
  · exact normal
  · refine Yields.read fun operators => ?_
    split
    · exact normal
    · exact Ty.normal_of .none

theorem oneOf_pair_normal {left right : Ty} (normalLeft : left.Normal) (normalRight : right.Normal) :
    (Ty.oneOf [left, right]).Normal := by
  apply Ty.oneOf_normal
  intro ty member
  rcases List.mem_pair.mp member with rfl | rfl
  · exact normalLeft
  · exact normalRight

theorem coalescingType_yields : (graph.coalescingType node).Yields Ty.Normal := by
  refine (graph.childType_yields node _).bind fun left normalLeft => ?_
  refine (graph.childType_yields node _).bind fun right normalRight => ?_
  exact oneOf_pair_normal (normalLeft.withNullable false) normalRight

theorem errorHandlingType_yields : (graph.errorHandlingType node).Yields Ty.Normal := by
  refine (graph.childType_yields node _).bind fun attempted normalAttempted => ?_
  refine Yields.read fun handler? => ?_
  cases handler? with
  | none => exact Ty.normal_of .record
  | some handler =>
      refine (Yields.askType handler).bind fun handled normalHandled => ?_
      exact oneOf_pair_normal normalAttempted normalHandled

theorem branchType_yields : (graph.branchType node).Yields Ty.Normal := by
  refine (graph.childType_yields node _).bind fun whenTrue normalTrue => ?_
  refine (graph.childType_yields node _).bind fun whenFalse normalFalse => ?_
  exact oneOf_pair_normal normalTrue normalFalse

theorem ifType_yields : (graph.ifType node).Yields Ty.Normal := by
  refine Yields.read fun conditionNode? => ?_
  cases conditionNode? with
  | none => exact graph.branchType_yields node
  | some conditionNode =>
      refine (Yields.askType conditionNode).bind fun condition _ => ?_
      split
      · exact graph.branchType_yields node
      · exact Ty.normal_of .none

theorem listType_yields : (graph.listType node).Yields Ty.Normal := by
  refine Yields.read fun elements => ?_
  refine (Yields.askTypes elements).bind fun types normal => ?_
  exact Ty.normal_list normal false

theorem pairFields_yields {fields : List (String × Ty)} (normal : Ty.NormalFields fields)
    (pairs : List KeyValuePair) : (pairFields fields pairs).Yields Ty.NormalFields := by
  induction pairs generalizing fields with
  | nil => exact normal
  | cons pair rest ih =>
      unfold pairFields
      cases pair.value? with
      | some value =>
          refine (Yields.askType value).bind fun ty normalTy => ?_
          exact ih (normal.set pair.key normalTy)
      | none => exact ih (normal.set pair.key (Ty.normal_of .unknown))

theorem recordType_yields : (graph.recordType node).Yields Ty.Normal := by
  refine Yields.read fun pairs => ?_
  refine (pairFields_yields (by simp [Ty.NormalFields]) pairs).bind fun fields normal => ?_
  exact Ty.normal_of_fields normal rfl rfl

theorem functionType_yields : (graph.functionType node).Yields Ty.Normal := by
  have functionNormal : ∀ {parameters : List Parameter} {result : Ty}, result.Normal →
      (Ty.function parameters result false).Normal := fun normal =>
    Ty.normal_of_parts rfl (by simpa [Ty.parts] using normal)
  refine Yields.read fun signature => ?_
  refine (graph.childType_yields node _).bind fun body normalBody => ?_
  dsimp only
  split
  · exact functionNormal normalBody
  · split
    · rename_i reconciled
      exact functionNormal ((Ty.normal_primitive _ _).reconcile normalBody reconciled)
    · exact Ty.normal_of .none

theorem parameterNodeType_yields : (graph.parameterNodeType node).Yields Ty.Normal := by
  refine Yields.read fun signature? => ?_
  cases signature? with
  | some signature => exact parameterType_normal _ _ _
  | none => exact Ty.normal_of .unknown

theorem itemType_yields (item : ScopeItem) : (graph.itemType item).Yields Ty.Normal := by
  cases item with
  | each expression => exact graph.typeAt_yields expression
  | parameter _ _ _ _ _ => exact parameterType_normal _ _ _
  | keyValuePair _ _ value? _ =>
      cases value? with
      | some value => exact graph.typeAt_yields value
      | none => exact Ty.normal_of .unknown
  | sectionMember _ _ value? _ =>
      cases value? with
      | some value => exact graph.typeAt_yields value
      | none => exact Ty.normal_of .unknown
  | undefined _ => exact Ty.normal_of .unknown

theorem dereferencedType_yields : (graph.dereferencedType node).Yields Ty.Normal := by
  refine (Yields.anything (graph.dereference node)).bind fun meaning _ => ?_
  cases meaning with
  | item item => exact graph.itemType_yields item
  | recursive => exact Ty.normal_of .any

theorem identifierType_yields : (graph.identifierType node).Yields Ty.Normal := by
  refine Yields.read fun parent? => ?_
  cases parent? with
  | none => exact graph.dereferencedType_yields node
  | some parent =>
      dsimp only
      split
      · split
        · exact graph.childType_yields parent _
        · exact graph.dereferencedType_yields node
      · exact Yields.askType parent
      · exact Yields.askType parent
      · exact graph.dereferencedType_yields node

theorem chainType_yields : (graph.chainType node).Yields Ty.Normal := by
  refine Yields.read fun tail? => ?_
  cases tail? with
  | none => exact graph.childType_yields node _
  | some tail =>
      dsimp only
      split
      · exact graph.typeAt_yields _
      · exact graph.childType_yields node _

theorem baseType_yields : (graph.baseType node).Yields Ty.Normal := by
  refine Yields.read fun previous? => ?_
  cases previous? with
  | some previous => exact Yields.askType previous
  | none =>
      dsimp only
      split
      · refine (Yields.anything (askBinding node.id "_")).bind fun item? _ => ?_
        cases item? with
        | some item => exact graph.itemType_yields item
        | none => exact Ty.normal_of .unknown
      · exact Ty.normal_of .unknown

theorem invokeType_yields : (graph.invokeType node).Yields Ty.Normal :=
  (graph.baseType_yields node).bind fun _ normal => normal.call

theorem selectorType_yields : (graph.selectorType node).Yields Ty.Normal := by
  refine Yields.read fun content? => ?_
  cases content?.bind Node.identifier? with
  | none => exact Ty.normal_of .unknown
  | some name =>
      refine Yields.read fun isOptional => ?_
      exact (graph.baseType_yields node).bind fun base normal => normal.selectField name isOptional

theorem projectionType_yields : (graph.projectionType node).Yields Ty.Normal := by
  refine Yields.read fun selectors => Yields.read fun names => Yields.read fun isOptional => ?_
  exact (graph.baseType_yields node).bind fun base normal => normal.projectFields names isOptional

theorem itemAccessType_yields : (graph.itemAccessType node).Yields Ty.Normal := by
  refine Yields.read fun content? => Yields.read fun isOptional => ?_
  exact (graph.baseType_yields node).bind fun base normal => normal.accessItem _ isOptional

theorem typePrimaryType_yields : (graph.typePrimaryType node).Yields Ty.Normal := by
  refine (graph.childType_yields node _).bind fun denoted normal => ?_
  split
  · exact normal
  · exact Ty.normal_of_parts rfl (by simpa [Ty.parts] using normal)

theorem specifiedFields_yields {fields : List (String × Ty)} (normal : Ty.NormalFields fields)
    (specifications : List FieldSpecification) :
    (specifiedFields fields specifications).Yields Ty.NormalFields := by
  induction specifications generalizing fields with
  | nil => exact normal
  | cons specification rest ih =>
      unfold specifiedFields
      cases specification.type? with
      | none => exact ih (normal.set specification.name (Ty.normal_of .any))
      | some typeNode =>
          refine (Yields.askType typeNode).bind fun ty normalTy => ?_
          apply ih
          apply normal.set
          split
          · exact normalTy.withNullable true
          · exact normalTy

theorem declaredFields_yields :
    (graph.declaredFields node).Yields fun declared => Ty.NormalFields declared.1 := by
  refine Yields.read fun specifications => ?_
  exact (specifiedFields_yields (by simp [Ty.NormalFields]) specifications.1).bind
    fun fields normal => normal

theorem recordTypeType_yields : (graph.recordTypeType node).Yields Ty.Normal := by
  refine Yields.read fun fieldList? => ?_
  cases fieldList? with
  | none => exact Ty.normal_of_parts rfl (by simp [Ty.parts])
  | some fieldList =>
      refine (graph.declaredFields_yields fieldList).bind fun declared normal => ?_
      exact Ty.normal_of_fields normal rfl rfl

theorem tableTypeType_yields : (graph.tableTypeType node).Yields Ty.Normal := by
  have openTable : (Ty.tableType [] true false).Normal :=
    Ty.normal_of_parts rfl (by simp [Ty.parts])
  refine Yields.read fun row? => ?_
  cases row? with
  | none => exact openTable
  | some row =>
      dsimp only
      split
      · refine (graph.declaredFields_yields row).bind fun declared normal => ?_
        exact Ty.normal_of_fields normal rfl rfl
      · refine (Yields.askType row).bind fun ty normal => ?_
        cases ty with
        | recordType fields isOpen isNullable =>
            exact Ty.normal_of_fields (normal.fields rfl) rfl rfl
        | _ => exact openTable

theorem listTypeType_yields : (graph.listTypeType node).Yields Ty.Normal := by
  refine (graph.childType_yields node _).bind fun item normal => ?_
  exact Ty.normal_of_parts rfl (by simpa [Ty.parts] using normal)

theorem functionTypeType_yields : (graph.functionTypeType node).Yields Ty.Normal := by
  refine Yields.read fun signature => ?_
  refine Ty.normal_of_parts rfl ?_
  intro denoted member
  obtain rfl := List.mem_singleton.mp member
  refine Ty.normal_of_parts rfl ?_
  intro result isResult
  obtain rfl := List.mem_singleton.mp isResult
  split
  · exact Ty.normal_primitive _ _
  · exact Ty.normal_of .any

theorem nullableTypeType_yields : (graph.nullableTypeType node).Yields Ty.Normal :=
  (graph.childType_yields node _).bind fun _ normal => normal.withNullable true

theorem fieldSpecificationType_yields : (graph.fieldSpecificationType node).Yields Ty.Normal := by
  refine Yields.read fun specification? => ?_
  cases specification? with
  | some specification => exact Yields.askType specification
  | none => exact Ty.normal_of .any

theorem typingRule_yields : (graph.typingRule node).Yields Ty.Normal := by
  unfold typingRule
  cases node.kind with
  | arrayWrapper | constant | fieldSpecificationList | generalizedIdentifier | parameterList
  | «section» => exact Ty.normal_of .notApplicable
  | isExpression => exact Ty.normal_of .logical
  | errorRaisingExpression | notImplementedExpression => exact Ty.normal_of .none
  | eachExpression | parenthesizedExpression | asType | asNullablePrimitiveType
  | isNullablePrimitiveType | fieldTypeSpecification | otherwiseExpression | asExpression | csv
  | letExpression | metadataExpression | rangeExpression | generalizedIdentifierPairedAnyLiteral
  | generalizedIdentifierPairedExpression | identifierPairedExpression | sectionMember =>
      exact graph.childType_yields node _
  | nullableType | nullablePrimitiveType => exact graph.nullableTypeType_yields node
  | literalExpression => exact literalType_yields node
  | primitiveType => exact primitiveType_yields node
  | arithmeticExpression | equalityExpression | logicalExpression | relationalExpression =>
      exact graph.operationType_yields node
  | unaryExpression => exact graph.unaryType_yields node
  | nullCoalescingExpression => exact graph.coalescingType_yields node
  | errorHandlingExpression => exact graph.errorHandlingType_yields node
  | ifExpression => exact graph.ifType_yields node
  | listExpression | listLiteral => exact graph.listType_yields node
  | recordExpression | recordLiteral => exact graph.recordType_yields node
  | functionExpression => exact graph.functionType_yields node
  | parameter => exact graph.parameterNodeType_yields node
  | identifier => exact graph.identifierType_yields node
  | identifierExpression => exact graph.dereferencedType_yields node
  | recursivePrimaryExpression => exact graph.chainType_yields node
  | invokeExpression => exact graph.invokeType_yields node
  | fieldSelector => exact graph.selectorType_yields node
  | fieldProjection => exact graph.projectionType_yields node
  | itemAccessExpression => exact graph.itemAccessType_yields node
  | typePrimaryType => exact graph.typePrimaryType_yields node
  | recordType => exact graph.recordTypeType_yields node
  | tableType => exact graph.tableTypeType_yields node
  | listType => exact graph.listTypeType_yields node
  | functionType => exact graph.functionTypeType_yields node
  | fieldSpecification => exact graph.fieldSpecificationType_yields node

end Graph

def NormalTypes (types : IdMap Ty) : Prop :=
  ∀ (id : NodeId) (ty : Ty), types[id]? = some ty → ty.Normal

theorem NormalTypes.insert {types : IdMap Ty} (normal : NormalTypes types) (id : NodeId) {ty : Ty}
    (normalTy : ty.Normal) : NormalTypes (types.insert id ty) := by
  intro other found present
  rw [Std.ExtTreeMap.getElem?_insert] at present
  split at present
  · obtain rfl := Option.some.inj present
    exact normalTy
  · exact normal other found present

theorem NormalTypes.union {types others : IdMap Ty} (normal : NormalTypes types)
    (normalOthers : NormalTypes others) : NormalTypes (types ∪ others) := by
  intro id ty present
  rw [Std.ExtTreeMap.getElem?_union] at present
  rcases Option.or_eq_some_iff.mp present with found | ⟨_, found⟩
  · exact normalOthers id ty found
  · exact normal id ty found

structure NormalOutcome {α : Type} (post : α → Prop) (outcome : Outcome α) : Prop where
  answer : ∀ value, outcome.1 = .ok value → post value
  types : NormalTypes outcome.2.types

theorem NormalOutcome.failure {α : Type} {post : α → Prop} {state : Progress}
    (normal : NormalTypes state.types) (reason : InspectionError) :
    NormalOutcome post (.error reason, state) where
  answer := by
    intro value impossible
    cases impossible
  types := normal

theorem NormalOutcome.success {α : Type} {post : α → Prop} {state : Progress} {value : α}
    (normal : NormalTypes state.types) (holds : post value) :
    NormalOutcome post (.ok value, state) where
  answer := by
    intro other same
    obtain rfl := Except.ok.inj same
    exact holds
  types := normal

theorem NormalOutcome.andThen {α β : Type} {post : α → Prop} {later : β → Prop}
    {outcome : Outcome α} {next : α → Progress → Outcome β} (first : NormalOutcome post outcome)
    (rest : ∀ value state, post value → NormalTypes state.types →
      NormalOutcome later (next value state)) :
    NormalOutcome later (Outcome.andThen outcome next) := by
  obtain ⟨result, after⟩ := outcome
  cases result with
  | error reason => exact .failure first.types reason
  | ok value => exact rest value after (first.answer value rfl) first.types

namespace Evaluator

variable {evaluator : Evaluator}

theorem run_normal {α : Type} {infer : Node → Progress → Outcome Ty}
    (infers : ∀ node state, NormalTypes state.types → NormalOutcome Ty.Normal (infer node state))
    {demand : Demand α} {post : α → Prop} (yields : demand.Yields post) {state : Progress}
    (normal : NormalTypes state.types) :
    NormalOutcome post (evaluator.run infer demand state) := by
  induction demand generalizing state with
  | answer value => exact .success normal yields
  | fail failure => exact .failure normal failure
  | typeOf node next ih =>
      rw [run_typeOf]
      exact (infers node state normal).andThen fun ty after normalTy kept =>
        ih ty (yields ty normalTy) kept
  | binding id name next ih =>
      obtain ⟨scopes, cancellation, frame⟩ := evaluator.lookUp_frame id name state
      have looked : NormalOutcome (fun _ => True) (evaluator.lookUp id name state) := by
        refine ⟨fun _ _ => trivial, ?_⟩
        rw [frame]
        exact normal
      rw [run_binding]
      exact looked.andThen fun item? after _ kept => ih item? (yields item?) kept
  | poll next ih =>
      unfold run
      split
      · exact ih yields normal
      · exact .failure normal _

theorem knownType?_normal (given : NormalTypes evaluator.givenTypes) {state : Progress}
    (normal : NormalTypes state.types) {id : NodeId} {ty : Ty}
    (known : evaluator.knownType? state id = some ty) : ty.Normal := by
  rcases Option.or_eq_some_iff.mp known with found | ⟨_, found⟩
  · exact normal id ty found
  · exact given id ty found

theorem inferWithin_normal (given : NormalTypes evaluator.givenTypes) (levels : Nat) (node : Node)
    (state : Progress) (normal : NormalTypes state.types) :
    NormalOutcome Ty.Normal (evaluator.inferWithin levels node state) := by
  induction levels using Nat.strongRecOn generalizing node state with
  | ind levels ih =>
      have answers := evaluator.inferWithin_answers levels node state
      generalize evaluator.inferWithin levels node state = outcome at answers ⊢
      cases answers with
      | stopped _ => exact .failure normal _
      | known _ seen => exact .success normal (knownType?_normal given normal seen)
      | cut _ _ _ => exact .success normal (Ty.normal_of .any)
      | tooDeep _ _ _ =>
          refine .failure ?_ _
          exact normal
      | @entered levels cancellation result inner _ _ _ ran =>
          have inside : NormalOutcome Ty.Normal (result, inner) := by
            rw [← ran]
            exact run_normal (ih levels (Nat.lt_succ_self levels))
              (evaluator.graph.typingRule_yields node) normal
          cases result with
          | error failure =>
              refine .failure ?_ failure
              exact inside.types
          | ok ty =>
              have normalTy := inside.answer ty rfl
              rw [Progress.leave_ok]
              refine .success ?_ normalTy
              dsimp only
              split
              · exact inside.types
              · exact inside.types.insert node.id normalTy

end Evaluator

/-- A cache of normal types gives normal types and stays one. -/
theorem inferType_normal {graph : Graph} {id : NodeId} {maxDepth : Nat} {cache : InspectionCache}
    {cancellation : Cancellation} (normal : NormalTypes cache.types) :
    (∀ ty, (inferType graph id maxDepth cache cancellation).answer = .ok ty → ty.Normal) ∧
      NormalTypes (inferType graph id maxDepth cache cancellation).cache.types := by
  cases found : graph.node id with
  | error failure =>
      rw [inferType_missing found]
      exact ⟨nofun, normal⟩
  | ok node =>
      have outcome := @Evaluator.inferWithin_normal ⟨graph, maxDepth, cache.types, cache.scopes⟩
        normal maxDepth node (.initial cancellation) (by simp [NormalTypes, Progress.initial])
      rw [inferType_answer found, inferType_cache found]
      refine ⟨outcome.answer, ?_⟩
      unfold InspectionCache.commit
      split
      · exact normal.union outcome.types
      · exact normal

/-- The formula `if true then a ?? b else 0`. -/
def coalescingSample : Graph :=
  (show Build NodeId from do
    let condition ← Builder.logicalLiteral true
    let a ← Builder.identifierExpression "a"
    let b ← Builder.identifierExpression "b"
    let value ← Builder.binaryOperation .nullCoalescingExpression a .nullCoalescing b
    let other ← Builder.numericLiteral "0"
    Builder.ifExpression condition value other).run .empty |>.2.graph

def coalescingCache : InspectionCache :=
  { types := (∅ : IdMap Ty).insert 3 (.union [.of .number, .of .text] false) |>.insert 5
      (.union [.of .text, .of .null] true)
    scopes := ∅ }

theorem coalescingSample_normal :
    NormalTypes coalescingCache.types ∧
      (∃ ty, (inferType coalescingSample 12 50 coalescingCache .never).answer = .ok ty ∧
        ty.unionMembers?.map (List.map Ty.kind) = some [.number, .text, .null] ∧ ty.Normal) ∧
      NormalTypes (inferType coalescingSample 12 50 coalescingCache .never).cache.types := by
  have unionNormal : ∀ (left right : TypeKind) (isNullable : Bool),
      (Ty.of left).same (.of right) = false →
      (Ty.union [.of left, .of right] isNullable).Normal := by
    intro left right isNullable different
    refine ⟨?_, ?_⟩
    · intro members isUnion
      obtain rfl := Option.some.inj isUnion
      exact ⟨by simp, by simp [Ty.of, Ty.unionMembers?], by simpa using different⟩
    · intro part member
      rcases List.mem_pair.mp member with rfl | rfl <;> exact Ty.normal_of _
  have normal : NormalTypes coalescingCache.types := by
    have nothing : NormalTypes ∅ := by simp [NormalTypes]
    exact (nothing.insert 3 (unionNormal .number .text false (by decide))).insert 5
      (unionNormal .text .null true (by decide))
  have kinds : (inferType coalescingSample 12 50 coalescingCache .never).answer.map
      (fun ty => ty.unionMembers?.map (List.map Ty.kind)) =
        .ok (some [.number, .text, .null]) := by decide +kernel
  obtain ⟨normalAnswer, normalCache⟩ :=
    @inferType_normal coalescingSample 12 50 coalescingCache .never normal
  refine ⟨normal, ?_, normalCache⟩
  cases inferred : (inferType coalescingSample 12 50 coalescingCache .never).answer with
  | error failure => simp [inferred, Except.map] at kinds
  | ok ty =>
      simp only [inferred, Except.map, Except.ok.injEq] at kinds
      exact ⟨ty, rfl, kinds, normalAnswer ty inferred⟩

end FormulaInspection
