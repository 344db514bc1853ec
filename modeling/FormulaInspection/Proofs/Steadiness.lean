import FormulaInspection.Proofs.Memoryless

/-!
What a rule asks does not depend on the types it is told, with one exception: an `if` asks for its
branches only when its condition can be one.
-/

namespace FormulaInspection

namespace Demand

variable {α β : Type} {first second : Oracle}

/-- Two courses of a computation, each with the answers of an oracle of its own: they ask for the
same until one of them fails, and if none does, their answers are related. -/
inductive Alike (first second : Oracle) {α : Type} (related : α → α → Prop) :
    Demand α → Demand α → Prop
  | answer {value other : α} : related value other →
      Alike first second related (.answer value) (.answer other)
  | failed {failure : InspectionError} {other : Demand α} :
      Alike first second related (.fail failure) other
  | otherFailed {demand : Demand α} {failure : InspectionError} :
      Alike first second related demand (.fail failure)
  | typeOf {node : Node} {next otherNext : Ty → Demand α} :
      (∀ ty other, first.typeOf node = .ok ty → second.typeOf node = .ok other →
        Alike first second related (next ty) (otherNext other)) →
      Alike first second related (.typeOf node next) (.typeOf node otherNext)
  | binding {id : NodeId} {name : String} {next otherNext : Option ScopeItem → Demand α} :
      (∀ item?, Alike first second related (next item?) (otherNext item?)) →
      Alike first second related (.binding id name next) (.binding id name otherNext)
  | poll {next otherNext : Demand α} : Alike first second related next otherNext →
      Alike first second related (.poll next) (.poll otherNext)

inductive Silent : Demand α → Prop
  | answer (value : α) : Silent (.answer value)
  | fail (failure : InspectionError) : Silent (.fail failure)

theorem Silent.alike {demand other : Demand α} (silent : demand.Silent)
    (otherSilent : other.Silent) : Alike first second (fun _ _ => True) demand other := by
  cases silent with
  | fail failure => exact .failed
  | answer value =>
      cases otherSilent with
      | fail failure => exact .otherFailed
      | answer other => exact .answer trivial

theorem Silent.settle {demand : Demand α} (silent : demand.Silent) (first second : Oracle) :
    demand.settle first = demand.settle second := by
  cases silent <;> rfl

theorem Silent.asked {demand : Demand α} (silent : demand.Silent) (oracle : Oracle) :
    demand.asked oracle = [] := by
  cases silent <;> rfl

def Uniform (first second : Oracle) (demand : Demand α) : Prop :=
  Alike first second (fun _ _ => True) demand demand

theorem Alike.asked {related : α → α → Prop} {demand other : Demand α} {value : α} {node : Node}
    (sameBindings : first.binding = second.binding)
    (alike : Alike first second related demand other) (settled : demand.settle first = .ok value)
    (member : node ∈ other.asked second) : node ∈ demand.asked first := by
  induction alike with
  | answer _ => simp [Demand.asked] at member
  | failed => simp [settle] at settled
  | otherFailed => simp [Demand.asked] at member
  | @typeOf asked next otherNext _ ih =>
      unfold settle at settled
      cases typed : first.typeOf asked with
      | error failure => simp [typed] at settled
      | ok ty =>
          simp only [typed] at settled
          cases otherTyped : second.typeOf asked with
          | error failure =>
              simp only [Demand.asked, otherTyped, List.mem_singleton] at member
              rw [member]
              exact mem_asked_typeOf
          | ok other =>
              simp only [Demand.asked, otherTyped, List.mem_cons] at member
              rcases member with rfl | later
              · exact mem_asked_typeOf
              · exact mem_asked_next typed (ih ty other typed otherTyped settled later)
  | @binding id name next otherNext _ ih =>
      unfold settle at settled
      simp only [Demand.asked] at member ⊢
      rw [← sameBindings] at member
      cases bound : first.binding id name with
      | error failure => simp [bound] at settled
      | ok item? =>
          simp only [bound] at settled member ⊢
          exact ih item? settled member
  | poll _ ih => exact ih settled member

namespace Alike

variable {related : α → α → Prop} {later : β → β → Prop} {demand other : Demand α}
  {next otherNext : α → Demand β}

theorem bind (alike : Alike first second related demand other)
    (rest : ∀ value other, related value other →
      Alike first second later (next value) (otherNext other)) :
    Alike first second later (demand >>= next) (other >>= otherNext) := by
  change Alike first second later (demand.bind next) (other.bind otherNext)
  induction alike with
  | answer holds => exact rest _ _ holds
  | failed => exact .failed
  | otherFailed => exact .otherFailed
  | typeOf _ ih => exact .typeOf ih
  | binding _ ih => exact .binding ih
  | poll _ ih => exact .poll ih

theorem read (reading : Except InspectionError α)
    (rest : ∀ value, reading = .ok value →
      Alike first second later (next value) (otherNext value)) :
    Alike first second later (liftM reading >>= next) (liftM reading >>= otherNext) := by
  cases reading with
  | ok value => exact rest value rfl
  | error failure => exact .failed

theorem ask {node : Node} {next otherNext : Ty → Demand β}
    (rest : ∀ ty other, Alike first second later (next ty) (otherNext other)) :
    Alike first second later (askType node >>= next) (askType node >>= otherNext) :=
  .typeOf fun ty other _ _ => rest ty other

theorem lookUp {id : NodeId} {name : String} {next otherNext : Option ScopeItem → Demand β}
    (rest : ∀ item?, Alike first second later (next item?) (otherNext item?)) :
    Alike first second later (askBinding id name >>= next) (askBinding id name >>= otherNext) :=
  .binding rest

end Alike

namespace Uniform

theorem askType (node : Node) : Uniform first second (Demand.askType node) :=
  .typeOf fun _ _ _ _ => .answer trivial

theorem askTypes (nodes : List Node) : Uniform first second (Demand.askTypes nodes) := by
  induction nodes with
  | nil => exact .answer trivial
  | cons node rest ih =>
      refine Alike.ask fun ty other => ?_
      exact Alike.bind ih fun _ _ _ => .answer trivial

end Uniform

end Demand

namespace Graph

variable {graph : Graph} {first second : Oracle}

open Demand

theorem typeAt_uniform (id : NodeId) : Uniform first second (graph.typeAt id) :=
  Alike.read _ fun node _ => Uniform.askType node

theorem childType_uniform (parent : Node) (slot : Nat) :
    Uniform first second (graph.childType parent slot) := by
  refine Alike.read _ fun child? _ => ?_
  cases child? with
  | none => exact .answer trivial
  | some child => exact Uniform.askType child

theorem childType_alike {parent : Node} {slot : Nat} {next otherNext : Ty → Demand Ty}
    (rest : ∀ ty other, Alike first second (fun _ _ => True) (next ty) (otherNext other)) :
    Alike first second (fun _ _ => True) (graph.childType parent slot >>= next)
      (graph.childType parent slot >>= otherNext) :=
  (graph.childType_uniform parent slot).bind fun ty other _ => rest ty other

theorem operationType_uniform (node : Node) :
    Uniform first second (graph.operationType node) := by
  refine Alike.read _ fun left? _ => ?_
  cases left? with
  | none => exact .answer trivial
  | some left =>
      refine Alike.ask fun leftType otherLeft => Alike.read _ fun operator? _ => ?_
      cases operator?.bind Node.token? with
      | none => exact .answer trivial
      | some operator =>
          refine Alike.read _ fun right? _ => ?_
          cases right? with
          | none => exact .answer trivial
          | some right => exact Alike.ask fun _ _ => .answer trivial

theorem unaryType_uniform (node : Node) : Uniform first second (graph.unaryType node) := by
  refine childType_alike fun operand otherOperand => Silent.alike ?_ ?_
  all_goals
    split
    · exact .answer _
    · cases graph.operatorTokens node with
      | error failure => exact .fail failure
      | ok operators =>
          change Silent (if _ then _ else _)
          split <;> exact .answer _

theorem coalescingType_uniform (node : Node) :
    Uniform first second (graph.coalescingType node) :=
  childType_alike fun _ _ => childType_alike fun _ _ => .answer trivial

theorem errorHandlingType_uniform (node : Node) :
    Uniform first second (graph.errorHandlingType node) := by
  refine childType_alike fun _ _ => Alike.read _ fun handler? _ => ?_
  cases handler? with
  | none => exact .answer trivial
  | some handler => exact Alike.ask fun _ _ => .answer trivial

theorem branchType_uniform (node : Node) : Uniform first second (graph.branchType node) :=
  childType_alike fun _ _ => childType_alike fun _ _ => .answer trivial

theorem ifType_uniform (node : Node)
    (agree : ∀ condition, graph.requiredChild? node Slot.ifCondition = .ok (some condition) →
      ∀ ty other, first.typeOf condition = .ok ty → second.typeOf condition = .ok other →
        ty.isCondition = other.isCondition) :
    Uniform first second (graph.ifType node) := by
  refine Alike.read _ fun condition? read => ?_
  cases condition? with
  | none => exact graph.branchType_uniform node
  | some condition =>
      refine .typeOf fun ty other typed otherTyped => ?_
      have same := agree condition read ty other typed otherTyped
      change Alike _ _ _ (if ty.isCondition then _ else _) (if other.isCondition then _ else _)
      rw [same]
      split
      · exact graph.branchType_uniform node
      · exact .answer trivial

theorem listType_uniform (node : Node) : Uniform first second (graph.listType node) := by
  refine Alike.read _ fun elements _ => ?_
  exact (Uniform.askTypes elements).bind fun _ _ _ => .answer trivial

theorem pairFields_alike (pairs : List KeyValuePair) (fields others : List (String × Ty)) :
    Alike first second (fun _ _ => True) (pairFields fields pairs) (pairFields others pairs) := by
  induction pairs generalizing fields others with
  | nil => exact .answer trivial
  | cons pair rest ih =>
      unfold pairFields
      cases pair.value? with
      | some value => exact Alike.ask fun _ _ => ih _ _
      | none => exact ih _ _

theorem recordType_uniform (node : Node) : Uniform first second (graph.recordType node) := by
  refine Alike.read _ fun pairs _ => ?_
  exact (pairFields_alike pairs [] []).bind fun _ _ _ => .answer trivial

theorem functionType_uniform (node : Node) : Uniform first second (graph.functionType node) := by
  refine Alike.read _ fun signature _ => childType_alike fun body otherBody => ?_
  cases signature.returnType? with
  | none => exact .answer trivial
  | some declared =>
      refine Silent.alike ?_ ?_
      all_goals
        simp only
        split <;> exact .answer _

theorem parameterNodeType_uniform (node : Node) :
    Uniform first second (graph.parameterNodeType node) := by
  refine Alike.read _ fun signature? _ => ?_
  cases signature? <;> exact .answer trivial

theorem itemType_uniform (item : ScopeItem) : Uniform first second (graph.itemType item) := by
  cases item with
  | each expression => exact graph.typeAt_uniform expression
  | keyValuePair _ _ value? _ =>
      cases value? with
      | some value => exact graph.typeAt_uniform value
      | none => exact .answer trivial
  | sectionMember _ _ value? _ =>
      cases value? with
      | some value => exact graph.typeAt_uniform value
      | none => exact .answer trivial
  | parameter _ _ _ _ _ => exact .answer trivial
  | undefined _ => exact .answer trivial

theorem followAliases_alike (start : NodeId) (marked : Bool) (hops : Nat) (visited : List NodeId)
    (current : NodeId) (use : NameUse) :
    Alike first second Eq (graph.followAliases start marked hops visited current use)
      (graph.followAliases start marked hops visited current use) := by
  induction hops using Nat.strongRecOn generalizing visited current use with
  | ind hops ih =>
      unfold followAliases
      refine .poll (Alike.lookUp fun item? => ?_)
      cases item? with
      | none => exact .answer rfl
      | some item =>
          simp only
          cases item.boundValue? with
          | none => exact .answer rfl
          | some value =>
              refine Alike.read _ fun node _ => Alike.read _ fun use? _ => ?_
              cases use? with
              | none => exact .answer rfl
              | some next =>
                  simp only
                  split
                  · exact .answer rfl
                  · cases hops with
                    | zero => exact .answer rfl
                    | succ hops => exact ih hops (Nat.lt_succ_self hops) _ _ _

theorem dereferencedType_uniform (node : Node) :
    Uniform first second (graph.dereferencedType node) := by
  have dereferenced : Alike first second Eq (graph.dereference node) (graph.dereference node) := by
    refine Alike.read _ fun use? _ => ?_
    cases use? with
    | none => exact .answer rfl
    | some use => exact graph.followAliases_alike _ _ _ _ _ _
  refine dereferenced.bind ?_
  rintro meaning _ rfl
  cases meaning with
  | item item => exact graph.itemType_uniform item
  | recursive => exact .answer trivial

theorem identifierType_uniform (node : Node) :
    Uniform first second (graph.identifierType node) := by
  refine Alike.read _ fun parent? _ => ?_
  cases parent? with
  | none => exact graph.dereferencedType_uniform node
  | some parent =>
      simp only
      split
      · split
        · exact graph.childType_uniform parent _
        · exact graph.dereferencedType_uniform node
      · exact Uniform.askType parent
      · exact Uniform.askType parent
      · exact graph.dereferencedType_uniform node

theorem chainType_uniform (node : Node) : Uniform first second (graph.chainType node) := by
  refine Alike.read _ fun tail? _ => ?_
  cases tail? with
  | none => exact graph.childType_uniform node _
  | some tail =>
      simp only
      cases (graph.childIds tail.id).getLast? with
      | some last => exact graph.typeAt_uniform last
      | none => exact graph.childType_uniform node _

theorem baseType_uniform (node : Node) : Uniform first second (graph.baseType node) := by
  refine Alike.read _ fun previous? _ => ?_
  cases previous? with
  | some previous => exact Uniform.askType previous
  | none =>
      simp only
      split
      · refine Alike.lookUp fun item? => ?_
        cases item? with
        | some item => exact graph.itemType_uniform item
        | none => exact .answer trivial
      · exact .answer trivial

theorem invokeType_uniform (node : Node) : Uniform first second (graph.invokeType node) :=
  (graph.baseType_uniform node).bind fun _ _ _ => .answer trivial

theorem selectorType_uniform (node : Node) : Uniform first second (graph.selectorType node) := by
  refine Alike.read _ fun name? _ => ?_
  cases name?.bind Node.identifier? with
  | none => exact .answer trivial
  | some name =>
      refine Alike.read _ fun isOptional _ => ?_
      exact (graph.baseType_uniform node).bind fun _ _ _ => .answer trivial

theorem projectionType_uniform (node : Node) :
    Uniform first second (graph.projectionType node) := by
  refine Alike.read _ fun selectors _ => Alike.read _ fun names _ => ?_
  refine Alike.read _ fun isOptional _ => ?_
  exact (graph.baseType_uniform node).bind fun _ _ _ => .answer trivial

theorem itemAccessType_uniform (node : Node) :
    Uniform first second (graph.itemAccessType node) := by
  refine Alike.read _ fun content? _ => Alike.read _ fun isOptional _ => ?_
  exact (graph.baseType_uniform node).bind fun _ _ _ => .answer trivial

theorem typePrimaryType_uniform (node : Node) :
    Uniform first second (graph.typePrimaryType node) := by
  refine childType_alike fun denoted otherDenoted => Silent.alike ?_ ?_
  all_goals
    split <;> exact .answer _

theorem specifiedFields_alike (specifications : List FieldSpecification)
    (fields others : List (String × Ty)) :
    Alike first second (fun _ _ => True) (specifiedFields fields specifications)
      (specifiedFields others specifications) := by
  induction specifications generalizing fields others with
  | nil => exact .answer trivial
  | cons specification rest ih =>
      unfold specifiedFields
      cases specification.type? with
      | some typeNode => exact Alike.ask fun _ _ => ih _ _
      | none => exact ih _ _

theorem declaredFields_uniform (fieldList : Node) :
    Uniform first second (graph.declaredFields fieldList) := by
  refine Alike.read _ fun specified _ => ?_
  exact (specifiedFields_alike specified.1 [] []).bind fun _ _ _ => .answer trivial

theorem recordTypeType_uniform (node : Node) :
    Uniform first second (graph.recordTypeType node) := by
  refine Alike.read _ fun fieldList? _ => ?_
  cases fieldList? with
  | none => exact .answer trivial
  | some fieldList =>
      exact (graph.declaredFields_uniform fieldList).bind fun _ _ _ => .answer trivial

theorem tableTypeType_uniform (node : Node) : Uniform first second (graph.tableTypeType node) := by
  refine Alike.read _ fun row? _ => ?_
  cases row? with
  | none => exact .answer trivial
  | some row =>
      simp only
      split
      · exact (graph.declaredFields_uniform row).bind fun _ _ _ => .answer trivial
      · refine Alike.ask fun rowType otherRow => Silent.alike ?_ ?_
        all_goals
          split <;> exact .answer _

theorem fieldSpecificationType_uniform (node : Node) :
    Uniform first second (graph.fieldSpecificationType node) := by
  refine Alike.read _ fun specification? _ => ?_
  cases specification? with
  | some specification => exact Uniform.askType specification
  | none => exact .answer trivial

theorem literalType_silent (node : Node) : (literalType node).Silent := by
  unfold literalType
  split
  · exact .answer _
  · exact .answer _
  · exact .answer _
  · exact .answer _
  · split
    · exact .fail _
    · exact .answer _

theorem primitiveType_silent (node : Node) : (primitiveType node).Silent := by
  unfold primitiveType
  split
  · exact .answer _
  · split
    · exact .fail _
    · exact .answer _

/-- Apart from conditions, the types that a rule is told do not decide what it asks for. -/
theorem typingRule_uniform (node : Node)
    (agree : node.kind = .ifExpression → ∀ condition,
      graph.requiredChild? node Slot.ifCondition = .ok (some condition) →
      ∀ ty other, first.typeOf condition = .ok ty → second.typeOf condition = .ok other →
        ty.isCondition = other.isCondition) :
    Uniform first second (graph.typingRule node) := by
  unfold typingRule
  cases kind : node.kind with
  | arrayWrapper | constant | fieldSpecificationList | generalizedIdentifier | parameterList
  | «section» | isExpression | errorRaisingExpression | notImplementedExpression =>
      exact .answer trivial
  | eachExpression | parenthesizedExpression | asType | asNullablePrimitiveType
  | isNullablePrimitiveType | fieldTypeSpecification | otherwiseExpression | asExpression | csv
  | letExpression | metadataExpression | rangeExpression | generalizedIdentifierPairedAnyLiteral
  | generalizedIdentifierPairedExpression | identifierPairedExpression | sectionMember =>
      exact graph.childType_uniform node _
  | nullableType | nullablePrimitiveType | listType =>
      exact childType_alike fun _ _ => .answer trivial
  | literalExpression => exact (literalType_silent node).alike (literalType_silent node)
  | primitiveType => exact (primitiveType_silent node).alike (primitiveType_silent node)
  | arithmeticExpression | equalityExpression | logicalExpression | relationalExpression =>
      exact graph.operationType_uniform node
  | unaryExpression => exact graph.unaryType_uniform node
  | nullCoalescingExpression => exact graph.coalescingType_uniform node
  | errorHandlingExpression => exact graph.errorHandlingType_uniform node
  | ifExpression => exact graph.ifType_uniform node (agree kind)
  | listExpression | listLiteral => exact graph.listType_uniform node
  | recordExpression | recordLiteral => exact graph.recordType_uniform node
  | functionExpression => exact graph.functionType_uniform node
  | parameter => exact graph.parameterNodeType_uniform node
  | identifier => exact graph.identifierType_uniform node
  | identifierExpression => exact graph.dereferencedType_uniform node
  | recursivePrimaryExpression => exact graph.chainType_uniform node
  | invokeExpression => exact graph.invokeType_uniform node
  | fieldSelector => exact graph.selectorType_uniform node
  | fieldProjection => exact graph.projectionType_uniform node
  | itemAccessExpression => exact graph.itemAccessType_uniform node
  | typePrimaryType => exact graph.typePrimaryType_uniform node
  | recordType => exact graph.recordTypeType_uniform node
  | tableType => exact graph.tableTypeType_uniform node
  | functionType => exact Alike.read _ fun _ _ => .answer trivial
  | fieldSpecification => exact graph.fieldSpecificationType_uniform node

/-- Wherever an evaluation comes to an `if` from, its condition can be one, or cannot. -/
def SteadyChoices (graph : Graph) : Prop :=
  ∀ choice condition, choice.kind = .ifExpression →
    graph.requiredChild? choice Slot.ifCondition = .ok (some condition) →
    ∀ stack other, graph.Reached stack choice → choice.id ∉ stack →
      graph.Reached other choice → choice.id ∉ other →
      ∀ ty otherTy, graph.typeInside (choice.id :: stack) condition = .ok ty →
        graph.typeInside (choice.id :: other) condition = .ok otherTy →
        ty.isCondition = otherTy.isCondition

theorem SteadyChoices.asked (steady : graph.SteadyChoices) {stack : List NodeId} {node next : Node}
    {ty : Ty} (reached : graph.Reached stack node) (fresh : node.id ∉ stack)
    (typed : graph.typeInside stack node = .ok ty) (asks : graph.Asks node next) :
    next ∈ graph.askedBy stack node := by
  obtain ⟨other, otherReached, otherFresh, asked⟩ := asks
  have uniform : Uniform (graph.oracle (node.id :: stack)) (graph.oracle (node.id :: other))
      (graph.typingRule node) :=
    typingRule_uniform node fun isIf condition read ty otherTy typed otherTyped =>
      steady node condition isIf read stack other reached fresh otherReached otherFresh ty otherTy
        typed otherTyped
  have sameBindings : (graph.oracle (node.id :: stack)).binding =
      (graph.oracle (node.id :: other)).binding := rfl
  rw [typeInside_entered fresh (reached.room fresh)] at typed
  exact Alike.asked sameBindings uniform typed asked

theorem condition_asked {stack : List NodeId} {choice condition : Node}
    (isIf : choice.kind = .ifExpression)
    (read : graph.requiredChild? choice Slot.ifCondition = .ok (some condition)) :
    condition ∈ graph.askedBy stack choice := by
  unfold askedBy typingRule ifType
  simp only [isIf, read]
  exact mem_asked_typeOf

theorem typeInside_silent {stack other : List NodeId} {node : Node} {ty otherTy : Ty}
    (silent : (graph.typingRule node).Silent) (fresh : node.id ∉ stack) (otherFresh : node.id ∉ other)
    (typed : graph.typeInside stack node = .ok ty)
    (otherTyped : graph.typeInside other node = .ok otherTy) : ty = otherTy := by
  have settled : ∀ {levels : Nat} {stack : List NodeId} {ty : Ty}, node.id ∉ stack →
      graph.typeWithin levels stack node = .ok ty →
      (graph.typingRule node).settle (graph.oracle []) = .ok ty := by
    intro levels stack ty fresh typed
    cases levels with
    | zero => simp [typeWithin, fresh] at typed
    | succ levels =>
        rw [typeWithin, if_neg fresh] at typed
        rw [← typed]
        exact silent.settle _ _
  exact Except.ok.inj ((settled fresh typed).symm.trans (settled otherFresh otherTyped))

theorem steadyChoices_of_silent (tree : graph.TreeShaped)
    (silent : ∀ choice condition, graph.Stored choice → choice.kind = .ifExpression →
      graph.requiredChild? choice Slot.ifCondition = .ok (some condition) →
      (graph.typingRule condition).Silent) : graph.SteadyChoices := by
  intro choice condition isIf read stack other reached fresh otherReached otherFresh ty otherTy typed
    otherTyped
  have quiet := silent choice condition reached.stored isIf read
  have outside : ∀ {stack : List NodeId}, graph.Reached stack choice → choice.id ∉ stack →
      condition.id ∉ choice.id :: stack := by
    intro stack reached fresh inside
    have below : graph.Reached (choice.id :: stack) condition :=
      .asked reached fresh (condition_asked isIf read)
    obtain ⟨next, ⟨_, _, _, asked⟩, _⟩ :=
      Relation.TransGen.head'_iff.mp (below.asks tree below.stored inside)
    rw [askedBy, quiet.asked] at asked
    simp at asked
  rw [typeInside_silent quiet (outside reached fresh) (outside otherReached otherFresh) typed
    otherTyped]

end Graph

end FormulaInspection
