import FormulaInspection.Graph.Builder
import FormulaInspection.Proofs.Entering
import FormulaInspection.Proofs.TypeEquality

/-!
Where the `null` of a type comes from. A union says so twice, by a flag of its own and by its
members, and the two need not agree: an optional access raises the flag of a union and the left side
of `??` lowers it, while the members stay what they are. A choice of types opens the unions among
them. It may be `null` exactly when something that is chosen from may be, whatever the flags say.
-/

namespace FormulaInspection

namespace Ty

def offersNull (ty : Ty) : Bool :=
  ty.alternatives.any isNullable

def Candid (ty : Ty) : Prop :=
  ty.isNullable = ty.offersNull

theorem any_addNew (seen : List Ty) (ty : Ty) :
    (addNew seen ty).any isNullable = (seen.any isNullable || ty.isNullable) := by
  unfold addNew
  split
  · rename_i present
    obtain ⟨other, inSeen, same⟩ := List.any_eq_true.mp present
    have sameFlag := same_isNullable same
    cases flag : ty.isNullable with
    | false => simp
    | true =>
        rw [flag] at sameFlag
        simpa using ⟨other, inSeen, sameFlag⟩
  · simp

theorem any_distinct (types : List Ty) : (distinct types).any isNullable = types.any isNullable := by
  have gathered : ∀ seen, (types.foldl addNew seen).any isNullable =
      (seen.any isNullable || types.any isNullable) := by
    induction types with
    | nil => simp
    | cons ty rest ih =>
        intro seen
        rw [List.foldl_cons, ih, any_addNew, List.any_cons, Bool.or_assoc]
  exact gathered []

theorem oneOf_isNullable (types : List Ty) :
    (oneOf types).isNullable = types.any offersNull := by
  have opened : types.any offersNull = (types.flatMap alternatives).any isNullable := by
    rw [List.any_flatMap]
    rfl
  rw [opened, ← any_distinct]
  unfold oneOf
  split
  · rename_i nothing
    rw [nothing]
    rfl
  · rename_i ty only
    simp [only]
  · rfl

theorem withNullable_offersNull {ty : Ty} :
    (ty.withNullable false).offersNull ↔
      ∃ members isNullable, ty = .union members isNullable ∧
        ∃ member ∈ members, member.isNullable := by
  cases ty with
  | union members isNullable => simp [withNullable, offersNull, alternatives]
  | _ => simp [withNullable, offersNull, alternatives, isNullable]

end Ty

namespace Evaluator

variable {evaluator : Evaluator} {node : Node}

inductive Admits (evaluator : Evaluator) (node : Node) (before : Progress) : Progress → Prop
  | unwritten : evaluator.graph.requiredChild? node Slot.ifCondition = .ok none →
      Admits evaluator node before before
  | condition {child ty after} :
      evaluator.graph.requiredChild? node Slot.ifCondition = .ok (some child) →
      evaluator.inferNode child before = (.ok ty, after) → ty.isCondition →
      Admits evaluator node before after

/-- The types that the value of a node is chosen from: those of the branches of an `if`, of a
protected expression and what handles its errors, or of the operands of `??`, where the left one is
told not to be `null`. -/
inductive Chooses (evaluator : Evaluator) (node : Node) (state : Progress) : List Ty → Prop
  | branch {inside admitted between after whenTrue whenFalse} : node.kind = .ifExpression →
      evaluator.Enters node state inside → evaluator.Admits node inside admitted →
      evaluator.TypesChild node Slot.ifTrue admitted whenTrue between →
      evaluator.TypesChild node Slot.ifFalse between whenFalse after →
      Chooses evaluator node state [whenTrue, whenFalse]
  | handler {inside between after attempted handled handler} :
      node.kind = .errorHandlingExpression → evaluator.Enters node state inside →
      evaluator.TypesChild node Slot.protectedExpression inside attempted between →
      evaluator.graph.child? node.id Slot.otherwiseHandler = .ok (some handler) →
      evaluator.inferNode handler between = (.ok handled, after) →
      Chooses evaluator node state [attempted, handled]
  | operand {inside between after left right} : node.kind = .nullCoalescingExpression →
      evaluator.Enters node state inside →
      evaluator.TypesChild node Slot.leftOperand inside left between →
      evaluator.TypesChild node Slot.rightOperand between right after →
      Chooses evaluator node state [left.withNullable false, right]

theorem Chooses.inferNode {state : Progress} {types : List Ty}
    (chooses : evaluator.Chooses node state types) :
    ∃ after, evaluator.inferNode node state = (.ok (.oneOf types), after) := by
  cases chooses with
  | @branch inside admitted between after whenTrue whenFalse kind enters admits first second =>
      have chosen : evaluator.run evaluator.inferNode (evaluator.graph.branchType node) admitted =
          (.ok (.oneOf [whenTrue, whenFalse]), after) := by
        unfold Graph.branchType
        rw [first.run_bind, second.run_bind]
        rfl
      have ran : evaluator.run evaluator.inferNode (evaluator.graph.typingRule node) inside =
          (.ok (.oneOf [whenTrue, whenFalse]), after) := by
        unfold Graph.typingRule Graph.ifType
        rw [kind]
        cases admits with
        | unwritten missing =>
            simp only [missing]
            exact chosen
        | @condition child ty _ written inferred isCondition =>
            simp only [written]
            change evaluator.run _ (.typeOf child fun ty =>
              if ty.isCondition then evaluator.graph.branchType node else .answer .none) inside = _
            rw [run_typeOf, inferred]
            simp only [Outcome.andThen, isCondition, if_true]
            exact chosen
      exact enters.inferNode ran
  | @handler inside between after attempted handled handler kind enters first written second =>
      have ran : evaluator.run evaluator.inferNode (evaluator.graph.typingRule node) inside =
          (.ok (.oneOf [attempted, handled]), after) := by
        unfold Graph.typingRule Graph.errorHandlingType
        rw [kind]
        simp only [written]
        rw [first.run_bind]
        change evaluator.run _ (.typeOf handler fun ty =>
          .answer (Ty.oneOf [attempted, ty])) between = _
        rw [run_typeOf, second]
        rfl
      exact enters.inferNode ran
  | @operand inside between after left right kind enters first second =>
      have ran : evaluator.run evaluator.inferNode (evaluator.graph.typingRule node) inside =
          (.ok (.oneOf [left.withNullable false, right]), after) := by
        unfold Graph.typingRule Graph.coalescingType
        rw [kind]
        simp only
        rw [first.run_bind, second.run_bind]
        rfl
      exact enters.inferNode ran

end Evaluator

/-- Whether a choice of types may be `null`, and with it a node whose value is chosen. -/
theorem choice_isNullable (types : List Ty) :
    ((Ty.oneOf types).isNullable ↔ ∃ ty ∈ types, ty.offersNull) ∧
    ((∀ ty ∈ types, ty.Candid) → ((Ty.oneOf types).isNullable ↔ ∃ ty ∈ types, ty.isNullable)) ∧
    ∀ (evaluator : Evaluator) (node : Node) (state : Progress),
      evaluator.Chooses node state types →
      ∃ after, evaluator.inferNode node state = (.ok (.oneOf types), after) := by
  have offered : (Ty.oneOf types).isNullable ↔ ∃ ty ∈ types, ty.offersNull := by
    rw [Ty.oneOf_isNullable, List.any_eq_true]
  refine ⟨offered, ?_, fun evaluator node state chooses => chooses.inferNode⟩
  intro candid
  rw [offered]
  constructor
  · rintro ⟨ty, member, offers⟩
    exact ⟨ty, member, by rw [candid ty member, offers]⟩
  · rintro ⟨ty, member, nullable⟩
    exact ⟨ty, member, by rw [← candid ty member, nullable]⟩

/-- The formula `if true then {1, "t"}{i}? else 2`. -/
def optionalItemSample : Graph :=
  (show Build NodeId from do
    let condition ← Builder.logicalLiteral true
    let one ← Builder.numericLiteral "1"
    let text ← Builder.textLiteral "t"
    let items ← Builder.listExpression [one, text]
    let index ← Builder.identifierExpression "i"
    let access ← Builder.itemAccess index true
    let item ← Builder.recursivePrimary items [access]
    let other ← Builder.numericLiteral "2"
    Builder.ifExpression condition item other).run .empty |>.2.graph

/-- An item that may be missing is a union that may be `null` of members that may not. A choice opens
the union and has nothing left of it but the members. -/
theorem optionalItemSample_forgets :
    let item : Ty := .union [.of .number, .of .text] true
    item.isNullable = true ∧ (Ty.oneOf [item, .of .number]).isNullable = false ∧
    (inferType optionalItemSample 18 50 .empty .never).answer.map Ty.isNullable =
      .ok true ∧
    (inferType optionalItemSample 23 50 .empty .never).answer.map Ty.isNullable =
      .ok false := by
  decide +kernel

def optionalItemEvaluator : Evaluator :=
  { graph := optionalItemSample
    maxDepth := 50
    givenTypes := (∅ : IdMap Ty).insert 1 .logical |>.insert 18 (.union [.of .number, .null] true)
      |>.insert 19 (.of .number)
    givenScopes := ∅ }

theorem optionalItemSample_isNullable :
    ∃ (node : Node) (ty : Ty) (after : Progress), node.kind = .ifExpression ∧
      optionalItemEvaluator.inferNode node (.initial .never) = (.ok ty, after) ∧ ty.isNullable := by
  let node : Node := .ast ⟨23, .ifExpression, none, .none⟩
  let condition : Node := .ast ⟨1, .literalExpression, some 1, .literal .logical "true"⟩
  let item : Node := .ast ⟨18, .recursivePrimaryExpression, some 3, .none⟩
  let other : Node := .ast ⟨19, .literalExpression, some 5, .literal .numeric "2"⟩
  let types : List Ty := [.union [.of .number, .null] true, .of .number]
  have conditionWritten : optionalItemEvaluator.graph.requiredChild? node Slot.ifCondition =
      .ok (some condition) := by decide +kernel
  have itemWritten : optionalItemEvaluator.graph.requiredChild? node Slot.ifTrue =
      .ok (some item) := by decide +kernel
  have otherWritten : optionalItemEvaluator.graph.requiredChild? node Slot.ifFalse =
      .ok (some other) := by decide +kernel
  have enters : optionalItemEvaluator.Enters node (.initial .never)
      ((Progress.initial .never).enter 23) :=
    ⟨by rfl, by rfl, by decide, .never, rfl, rfl⟩
  have chooses : optionalItemEvaluator.Chooses node (.initial .never) types :=
    .branch rfl enters (.condition conditionWritten (Evaluator.inferNode_known rfl rfl) rfl)
      (Evaluator.typesChild_written itemWritten (Evaluator.inferNode_known rfl rfl))
      (Evaluator.typesChild_written otherWritten (Evaluator.inferNode_known rfl rfl))
  have candid : ∀ ty ∈ types, ty.Candid := by
    intro ty member
    rcases List.mem_pair.mp member with rfl | rfl <;> rfl
  obtain ⟨_, nullable, inferred⟩ := choice_isNullable types
  obtain ⟨after, answered⟩ := inferred _ node _ chooses
  exact ⟨node, _, after, rfl, answered, (nullable candid).mpr ⟨_, List.mem_cons_self .., rfl⟩⟩

/-- The value of `left ?? right` may be `null` when that of the right operand may be, or when the left
one is a union and some member of it may be: the members keep what the union is told not to be. -/
theorem coalescing_isNullable {evaluator : Evaluator} {node leftNode rightNode : Node}
    {state inside between after : Progress} {left right : Ty}
    (kind : node.kind = .nullCoalescingExpression)
    (hasLeft : evaluator.graph.requiredChild? node Slot.leftOperand = .ok (some leftNode))
    (hasRight : evaluator.graph.requiredChild? node Slot.rightOperand = .ok (some rightNode))
    (enters : evaluator.Enters node state inside)
    (leftTyped : evaluator.inferNode leftNode inside = (.ok left, between))
    (rightTyped : evaluator.inferNode rightNode between = (.ok right, after))
    (candid : right.Candid) :
    ∃ ty final, evaluator.inferNode node state = (.ok ty, final) ∧
      (ty.isNullable ↔ right.isNullable ∨
        ∃ members isNullable, left = .union members isNullable ∧
          ∃ member ∈ members, member.isNullable) := by
  have chooses : evaluator.Chooses node state [left.withNullable false, right] :=
    .operand kind enters (Evaluator.typesChild_written hasLeft leftTyped)
      (Evaluator.typesChild_written hasRight rightTyped)
  obtain ⟨final, inferred⟩ := chooses.inferNode
  refine ⟨_, final, inferred, ?_⟩
  rw [Ty.oneOf_isNullable, candid, ← Ty.withNullable_offersNull]
  simp [or_comm]

/-- The function `(x as nullable text) => (if true then x else 1) ?? 2`. -/
def nullableBranchSample : Graph :=
  (show Build NodeId from do
    let x ← Builder.identifierExpression "x"
    let condition ← Builder.logicalLiteral true
    let one ← Builder.numericLiteral "1"
    let left ← Builder.ifExpression condition x one
    let two ← Builder.numericLiteral "2"
    let value ← Builder.binaryOperation .nullCoalescingExpression left .nullCoalescing two
    let parameter ← Builder.parameter "x" false (some (.text, true))
    Builder.functionExpression [parameter] none value).run .empty |>.2.graph

theorem nullableBranchSample_stays :
    ((nullableBranchSample.requiredChild? (.ast ⟨11, .nullCoalescingExpression, some 3, .none⟩)
      Slot.rightOperand).map fun right => right.map Node.id) = .ok (some 9) ∧
    (inferType nullableBranchSample 9 50 .empty .never).answer.map Ty.isNullable =
      .ok false ∧
    (inferType nullableBranchSample 11 50 .empty .never).answer.map Ty.isNullable =
      .ok true := by
  decide +kernel

def nullableBranchEvaluator : Evaluator :=
  { graph := nullableBranchSample
    maxDepth := 50
    givenTypes := (∅ : IdMap Ty).insert 8 (.union [.of .text, .of .date] true) |>.insert 9
      (.union [.of .number, .of .text] false)
    givenScopes := ∅ }

theorem nullableBranchSample_coalesces :
    ∃ (node : Node) (ty : Ty) (after : Progress), node.kind = .nullCoalescingExpression ∧
      nullableBranchEvaluator.inferNode node (.initial .never) = (.ok ty, after) ∧
      ¬ty.isNullable := by
  let node : Node := .ast ⟨11, .nullCoalescingExpression, some 3, .none⟩
  have leftWritten : nullableBranchEvaluator.graph.requiredChild? node Slot.leftOperand =
      .ok (some (.ast ⟨8, .ifExpression, some 0, .none⟩)) := by decide +kernel
  have rightWritten : nullableBranchEvaluator.graph.requiredChild? node Slot.rightOperand =
      .ok (some (.ast ⟨9, .literalExpression, some 2, .literal .numeric "2"⟩)) := by decide +kernel
  have enters : nullableBranchEvaluator.Enters node (.initial .never)
      ((Progress.initial .never).enter 11) :=
    ⟨by rfl, by rfl, by decide, .never, rfl, rfl⟩
  obtain ⟨ty, after, inferred, nullable⟩ := coalescing_isNullable rfl leftWritten rightWritten enters
    (Evaluator.inferNode_known rfl rfl) (Evaluator.inferNode_known rfl rfl) rfl
  refine ⟨node, ty, after, rfl, inferred, ?_⟩
  rw [nullable]
  rintro (right | ⟨members, isNullable, isUnion, member, inside, offers⟩)
  · cases right
  · cases isUnion
    rcases List.mem_pair.mp inside with rfl | rfl <;> cases offers

end FormulaInspection
