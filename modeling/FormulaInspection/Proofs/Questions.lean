import FormulaInspection.Inference.Rules
import FormulaInspection.Proofs.DeclarationReadings

/-!
What the typing rules ask. Whatever the graph looks like, a rule asks for types of stored nodes and
for bindings at nodes that use names; and where the graph has no fault, no rule fails.
-/

namespace FormulaInspection

def Node.UsesNames (node : Node) : Prop :=
  node.kind = .identifier ∨ node.kind = .identifierExpression ∨ node.kind = .fieldSelector ∨
    node.kind = .fieldProjection

def ScopeItem.PointsInto (graph : Graph) : ScopeItem → Prop
  | .each expression => (graph.node? expression).isSome
  | .keyValuePair _ _ value? _ | .sectionMember _ _ value? _ =>
    ∀ value, value? = some value → (graph.node? value).isSome
  | .parameter _ _ _ _ _ | .undefined _ => True

theorem ScopeItem.PointsInto.boundValue {graph : Graph} {item : ScopeItem} {value : NodeId}
    (points : item.PointsInto graph) (bound : item.boundValue? = some value) :
    (graph.node? value).isSome := by
  cases item with
  | each _ => simp [boundValue?] at bound
  | parameter _ _ _ _ _ => simp [boundValue?] at bound
  | keyValuePair _ _ _ _ => exact points value bound
  | sectionMember _ _ _ _ => exact points value bound
  | undefined _ => simp [boundValue?] at bound

namespace Graph

def ruleContract (graph : Graph) (fault : Prop) : Contract where
  fault := fault
  asksType := graph.Stored
  asksBinding id := ∃ node, graph.Stored node ∧ node.id = id ∧ node.UsesNames
  tellsBinding _ _ item? := ¬fault → ∀ item, item? = some item → item.PointsInto graph

variable {graph : Graph} {fault : Prop}

open Demand

theorem typeAt_keeps {id : NodeId} (stored : ¬fault → (graph.node? id).isSome) :
    (graph.typeAt id).Keeps (graph.ruleContract fault) fun _ => True := by
  refine (Keeps.read (node_meets stored)).bind fun node found => ?_
  exact Keeps.askType ⟨id, found⟩

section

variable (sound : ¬fault → graph.ShapeCorrect)

include sound

theorem childType_keeps {parent : Node} {slot : Nat} (stored : graph.Stored parent)
    (required : ¬fault → slot ∈ parent.kind.requiredSlots) :
    (graph.childType parent slot).Keeps (graph.ruleContract fault) fun _ => True := by
  refine (Keeps.read (openRequired?_meets sound stored required)).bind fun child? reading => ?_
  cases child? with
  | none => trivial
  | some child => exact Keeps.askType (reading.inSlot rfl).childOf.stored

theorem elementsAt_meets {node : Node} {slot : Nat} (stored : graph.Stored node)
    (required : ¬fault → slot ∈ node.kind.requiredSlots)
    (restricted : ¬fault → node.kind.slotKinds slot = some [.arrayWrapper]) :
    Meets fault (fun elements => ∀ element ∈ elements, graph.Stored element)
      (graph.elementsAt node slot) := by
  refine (openRequired?_meets sound stored required).bind fun wrapper? reading => ?_
  cases wrapper? with
  | none =>
      intro element member
      simp at member
  | some wrapper =>
      refine (arrayContents_meets sound fun noFault => ?_).weaken ?_
      · exact (sound noFault).restricted stored (reading.inSlot rfl) (restricted noFault)
      · exact fun contents held element member => (held.2 element member).stored

theorem literalType_keeps {node : Node} (stored : graph.Stored node)
    (kind : node.kind = .literalExpression) :
    (literalType node).Keeps (graph.ruleContract fault) fun _ => True := by
  unfold literalType
  split
  · trivial
  · trivial
  · trivial
  · trivial
  · rename_i missing
    cases node with
    | context _ => trivial
    | ast leaf =>
        refine ⟨?_, trivial⟩
        by_contra noFault
        simpa [missing] using (sound noFault).literals stored kind

theorem primitiveType_keeps {node : Node} (stored : graph.Stored node)
    (kind : node.kind = .primitiveType) :
    (primitiveType node).Keeps (graph.ruleContract fault) fun _ => True := by
  unfold primitiveType
  split
  · trivial
  · rename_i missing
    cases node with
    | context _ => trivial
    | ast leaf =>
        refine ⟨?_, trivial⟩
        by_contra noFault
        simpa [missing] using (sound noFault).primitives stored kind

theorem operationType_keeps {node : Node} (stored : graph.Stored node)
    (required : node.kind.requiredSlots =
      [Slot.leftOperand, Slot.operator, Slot.rightOperand]) :
    (graph.operationType node).Keeps (graph.ruleContract fault) fun _ => True := by
  refine (Keeps.read (openRequired?_meets sound stored fun _ => by simp [required])).bind
    fun left? leftReading => ?_
  cases left? with
  | none => trivial
  | some left =>
      refine (Keeps.askType (leftReading.inSlot rfl).childOf.stored).bind fun leftType _ => ?_
      refine (Keeps.read (openRequired?_meets sound stored fun _ => by simp [required])).bind
        fun operator? _ => ?_
      cases operator?.bind Node.token? with
      | none => trivial
      | some operator =>
          refine (Keeps.read (openRequired?_meets sound stored fun _ => by simp [required])).bind
            fun right? rightReading => ?_
          cases right? with
          | none => trivial
          | some right =>
              refine (Keeps.askType (rightReading.inSlot rfl).childOf.stored).bind ?_
              exact fun _ _ => trivial

theorem operatorTokens_meets {node : Node} (stored : graph.Stored node)
    (required : ¬fault → Slot.unaryOperators ∈ node.kind.requiredSlots) :
    Meets fault (fun _ => True) (graph.operatorTokens node) := by
  refine (openRequired?_meets sound stored required).bind fun wrapper? _ => ?_
  cases wrapper? with
  | none => trivial
  | some wrapper => exact (childNodes_meets sound wrapper.id).bind fun _ _ => trivial

theorem unaryType_keeps {node : Node} (stored : graph.Stored node)
    (kind : node.kind = .unaryExpression) :
    (graph.unaryType node).Keeps (graph.ruleContract fault) fun _ => True := by
  refine (childType_keeps sound stored fun _ => by simp [kind, NodeKind.requiredSlots]).bind
    fun operand _ => ?_
  split
  · trivial
  · refine (Keeps.read (operatorTokens_meets sound stored
      fun _ => by simp [kind, NodeKind.requiredSlots])).bind fun operators _ => ?_
    split <;> trivial

theorem coalescingType_keeps {node : Node} (stored : graph.Stored node)
    (kind : node.kind = .nullCoalescingExpression) :
    (graph.coalescingType node).Keeps (graph.ruleContract fault) fun _ => True := by
  refine (childType_keeps sound stored fun _ => by simp [kind, NodeKind.requiredSlots]).bind
    fun left _ => ?_
  refine (childType_keeps sound stored fun _ => by simp [kind, NodeKind.requiredSlots]).bind
    fun right _ => ?_
  trivial

theorem errorHandlingType_keeps {node : Node} (stored : graph.Stored node)
    (kind : node.kind = .errorHandlingExpression) :
    (graph.errorHandlingType node).Keeps (graph.ruleContract fault) fun _ => True := by
  refine (childType_keeps sound stored fun _ => by simp [kind, NodeKind.requiredSlots]).bind
    fun attempted _ => ?_
  refine (Keeps.read (openChild?_meets sound node.id Slot.otherwiseHandler)).bind
    fun handler? reading => ?_
  cases handler? with
  | none => trivial
  | some handler =>
      exact (Keeps.askType (reading.inSlot rfl).childOf.stored).bind fun _ _ => trivial

theorem branchType_keeps {node : Node} (stored : graph.Stored node)
    (kind : node.kind = .ifExpression) :
    (graph.branchType node).Keeps (graph.ruleContract fault) fun _ => True := by
  refine (childType_keeps sound stored fun _ => by simp [kind, NodeKind.requiredSlots]).bind
    fun whenTrue _ => ?_
  refine (childType_keeps sound stored fun _ => by simp [kind, NodeKind.requiredSlots]).bind
    fun whenFalse _ => ?_
  trivial

theorem ifType_keeps {node : Node} (stored : graph.Stored node)
    (kind : node.kind = .ifExpression) :
    (graph.ifType node).Keeps (graph.ruleContract fault) fun _ => True := by
  refine (Keeps.read (openRequired?_meets sound stored
    fun _ => by simp [kind, NodeKind.requiredSlots])).bind fun condition? reading => ?_
  cases condition? with
  | none => exact branchType_keeps sound stored kind
  | some condition =>
      refine (Keeps.askType (reading.inSlot rfl).childOf.stored).bind fun ty _ => ?_
      split
      · exact branchType_keeps sound stored kind
      · trivial

theorem listType_keeps {node : Node} (stored : graph.Stored node)
    (kind : node.kind = .listExpression ∨ node.kind = .listLiteral) :
    (graph.listType node).Keeps (graph.ruleContract fault) fun _ => True := by
  refine (Keeps.read (elementsAt_meets sound stored ?_ ?_)).bind fun elements held => ?_
  · rcases kind with kind | kind <;> simp [kind, NodeKind.requiredSlots]
  · rcases kind with kind | kind <;> simp [kind, NodeKind.slotKinds]
  · exact (Keeps.askTypes held).bind fun _ _ => trivial

omit sound in
theorem pairFields_keeps {pairs : List KeyValuePair} (fields : List (String × Ty))
    (stored : ∀ pair ∈ pairs, ∀ value, pair.value? = some value → graph.Stored value) :
    (pairFields fields pairs).Keeps (graph.ruleContract fault) fun _ => True := by
  induction pairs generalizing fields with
  | nil => trivial
  | cons pair rest ih =>
      have others := fun fields =>
        ih fields fun other member => stored other (List.mem_cons_of_mem _ member)
      unfold pairFields
      cases hasValue : pair.value? with
      | none => exact others _
      | some value =>
          refine (Keeps.askType (stored pair (by simp) value hasValue)).bind fun ty _ => ?_
          exact others _

theorem recordType_keeps {node : Node} (stored : graph.Stored node)
    (kind : node.kind = .recordExpression ∨ node.kind = .recordLiteral) :
    (graph.recordType node).Keeps (graph.ruleContract fault) fun _ => True := by
  refine (Keeps.read (recordPairs_meets sound stored kind)).bind fun pairs facts => ?_
  refine (pairFields_keeps [] ?_).bind fun _ _ => trivial
  exact fun pair member value hasValue => ((facts pair member).2.value hasValue).childOf.stored

theorem functionType_keeps {node : Node} (stored : graph.Stored node)
    (kind : node.kind = .functionExpression) :
    (graph.functionType node).Keeps (graph.ruleContract fault) fun _ => True := by
  refine (Keeps.read (functionSignature_meets sound stored (Or.inl kind))).bind
    fun signature _ => ?_
  refine (childType_keeps sound stored fun _ => by simp [kind, NodeKind.requiredSlots]).bind
    fun body _ => ?_
  simp only
  split
  · trivial
  · split <;> trivial

theorem parameterNodeType_keeps {node : Node} (stored : graph.Stored node)
    (kind : node.kind = .parameter) :
    (graph.parameterNodeType node).Keeps (graph.ruleContract fault) fun _ => True := by
  refine (Keeps.read (parameterSignature?_meets sound stored fun _ => by simp [kind])).bind
    fun signature? _ => ?_
  cases signature? <;> trivial

theorem nameUse?_meets {node : Node} (stored : graph.Stored node) :
    Meets fault (fun use? => ∀ use, use? = some use → node.UsesNames) (graph.nameUse? node) := by
  unfold nameUse?
  split
  · rename_i kind
    exact fun _ _ => Or.inl kind
  · rename_i kind
    refine (hasChild_meets sound node.id Slot.inclusiveMark).bind fun _ _ => ?_
    refine (restrictedChild?_meets sound stored fun _ => by rw [kind]; rfl).bind fun _ _ => ?_
    exact fun _ _ => Or.inr (Or.inl kind)
  · intro use impossible
    simp at impossible

theorem followAliases_keeps {first : NodeId} {marked : Bool} {hopsLeft : Nat}
    {visited : List NodeId} {node : Node} {use : NameUse} (stored : graph.Stored node)
    (usesNames : node.UsesNames) :
    (graph.followAliases first marked hopsLeft visited node.id use).Keeps
      (graph.ruleContract fault)
      fun meaning => ¬fault → ∀ item, meaning = .item item → item.PointsInto graph := by
  -- Only the last hop looks at how many are left, so the cases are split there.
  induction hopsLeft using Nat.strongRecOn generalizing visited node use with
  | ind hopsLeft ih =>
      unfold followAliases
      have allowed : (graph.ruleContract fault).asksBinding node.id := ⟨node, stored, rfl, usesNames⟩
      refine (Keeps.askBinding allowed).bind fun item? told => ?_
      cases item? with
      | none =>
          intro _ item same
          obtain rfl := Meaning.item.inj same
          trivial
      | some item =>
          have itemPoints : ¬fault → ∀ other, Meaning.item item = .item other →
              other.PointsInto graph := by
            intro noFault other same
            obtain rfl := Meaning.item.inj same
            exact told noFault item rfl
          cases bound : item.boundValue? with
          | none =>
              simp only [bound]
              exact itemPoints
          | some value =>
              simp only [bound]
              refine (Keeps.read (node_meets fun noFault =>
                (told noFault item rfl).boundValue bound)).bind fun target found => ?_
              have targetStored : graph.Stored target := ⟨value, found⟩
              refine (Keeps.read (nameUse?_meets sound targetStored)).bind fun use? uses => ?_
              cases use? with
              | none => exact itemPoints
              | some next =>
                  simp only
                  split
                  · intro _ item impossible
                    simp at impossible
                  · cases hopsLeft with
                    | zero =>
                        intro _ item impossible
                        simp at impossible
                    | succ hopsLeft =>
                        exact ih hopsLeft (Nat.lt_succ_self _) targetStored (uses next rfl)

theorem dereference_keeps {node : Node} (stored : graph.Stored node) :
    (graph.dereference node).Keeps (graph.ruleContract fault)
      fun meaning => ¬fault → ∀ item, meaning = .item item → item.PointsInto graph := by
  refine (Keeps.read (nameUse?_meets sound stored)).bind fun use? uses => ?_
  cases use? with
  | none =>
      intro _ item same
      obtain rfl := Meaning.item.inj same
      trivial
  | some use => exact followAliases_keeps sound stored (uses use rfl)

omit sound in
theorem itemType_keeps {item : ScopeItem} (points : ¬fault → item.PointsInto graph) :
    (graph.itemType item).Keeps (graph.ruleContract fault) fun _ => True := by
  cases item with
  | each expression => exact typeAt_keeps points
  | parameter _ _ _ _ _ => trivial
  | keyValuePair key keyNode value? isRecursive =>
      cases value? with
      | none => trivial
      | some value => exact typeAt_keeps fun noFault => points noFault value rfl
  | sectionMember key keyNode value? isRecursive =>
      cases value? with
      | none => trivial
      | some value => exact typeAt_keeps fun noFault => points noFault value rfl
  | undefined _ => trivial

theorem dereferencedType_keeps {node : Node} (stored : graph.Stored node) :
    (graph.dereferencedType node).Keeps (graph.ruleContract fault) fun _ => True := by
  refine (dereference_keeps sound stored).bind fun meaning points => ?_
  cases meaning with
  | item item => exact itemType_keeps fun noFault => points noFault item rfl
  | recursive => trivial

theorem identifierType_keeps {node : Node} (stored : graph.Stored node) :
    (graph.identifierType node).Keeps (graph.ruleContract fault) fun _ => True := by
  refine (Keeps.read (parent?_meets sound node.id)).bind fun parent? facts => ?_
  cases parent? with
  | none => exact dereferencedType_keeps sound stored
  | some parent =>
      obtain ⟨link, _, found⟩ := facts parent rfl
      have parentStored : graph.Stored parent := ⟨link, found⟩
      simp only
      split
      · rename_i kind
        split
        · exact childType_keeps sound parentStored fun _ => by simp [kind, NodeKind.requiredSlots]
        · exact dereferencedType_keeps sound stored
      · exact Keeps.askType parentStored
      · exact Keeps.askType parentStored
      · exact dereferencedType_keeps sound stored

theorem chainType_keeps {node : Node} (stored : graph.Stored node)
    (kind : node.kind = .recursivePrimaryExpression) :
    (graph.chainType node).Keeps (graph.ruleContract fault) fun _ => True := by
  have head := childType_keeps sound stored fun _ => (by simp [kind, NodeKind.requiredSlots] :
    Slot.chainHead ∈ node.kind.requiredSlots)
  refine (Keeps.read (openRequired?_meets sound stored
    fun _ => by simp [kind, NodeKind.requiredSlots])).bind fun tail? _ => ?_
  cases tail? with
  | none => exact head
  | some tail =>
      cases last? : (graph.childIds tail.id).getLast? with
      | none =>
          simp only [last?]
          exact head
      | some last =>
          simp only [last?]
          exact typeAt_keeps fun noFault =>
            (sound noFault).childStored (List.mem_of_getLast? last?)

theorem enclosingChain?_meets {node : Node} :
    Meets fault
      (fun chain? => ∀ chain wrapper, chain? = some (chain, wrapper) →
        graph.Stored chain ∧ chain.kind = .recursivePrimaryExpression)
      (graph.enclosingChain? node) := by
  refine (parent?_meets sound node.id).bind fun wrapper? _ => ?_
  cases wrapper? with
  | none => simp [Meets, pure, Except.pure]
  | some wrapper =>
      simp only
      split
      · refine (parent?_meets sound wrapper.id).bind fun chain? facts => ?_
        cases chain? with
        | none => simp [Meets, pure, Except.pure]
        | some chain =>
            simp only
            split
            · rename_i kind
              obtain ⟨link, _, found⟩ := facts chain rfl
              intro other holder same
              obtain ⟨rfl, rfl⟩ := Prod.mk.inj (Option.some.inj same)
              exact ⟨⟨link, found⟩, kind⟩
            · simp [Meets, pure, Except.pure]
      · simp [Meets, pure, Except.pure]

omit sound in
theorem elementBefore?_mem {id : NodeId} {previous? : Option NodeId} {ids : List NodeId}
    {previous : NodeId} (found : elementBefore? id previous? ids = some (some previous)) :
    previous? = some previous ∨ previous ∈ ids := by
  induction ids generalizing previous? with
  | nil => simp [elementBefore?] at found
  | cons element rest ih =>
      unfold elementBefore? at found
      split at found
      · exact Or.inl (Option.some.inj found)
      · rcases ih found with same | later
        · exact Or.inr (by simp [Option.some.inj same])
        · exact Or.inr (List.mem_cons_of_mem _ later)

theorem previousInChain?_meets {node : Node} :
    Meets fault (fun previous? => ∀ previous, previous? = some previous → graph.Stored previous)
      (graph.previousInChain? node) := by
  refine (enclosingChain?_meets sound).bind fun chain? facts => ?_
  cases chain? with
  | none => simp [Meets, pure, Except.pure]
  | some pair =>
      obtain ⟨chain, wrapper⟩ := pair
      obtain ⟨chainStored, kind⟩ := facts chain wrapper rfl
      simp only
      split
      · simp [Meets, pure, Except.pure]
      · refine (openRequired?_meets sound chainStored
          fun _ => by simp [kind, NodeKind.requiredSlots]).weaken fun head? reading => ?_
        exact fun head same => (reading.inSlot same).childOf.stored
      · rename_i previous before
        refine (node_meets fun noFault => ?_).bind fun element found => ?_
        · exact (sound noFault).childStored
            ((elementBefore?_mem before).resolve_left (by simp))
        · intro other same
          obtain rfl := Option.some.inj same
          exact ⟨previous, found⟩

theorem baseType_keeps {node : Node} (stored : graph.Stored node) :
    (graph.baseType node).Keeps (graph.ruleContract fault) fun _ => True := by
  refine (Keeps.read (previousInChain?_meets sound)).bind fun previous? facts => ?_
  cases previous? with
  | some previous => exact Keeps.askType (facts previous rfl)
  | none =>
      simp only
      split
      · rename_i kind
        have allowed : (graph.ruleContract fault).asksBinding node.id :=
          ⟨node, stored, rfl, Or.inr (Or.inr kind)⟩
        refine (Keeps.askBinding allowed).bind fun item? told => ?_
        cases item? with
        | none => trivial
        | some item => exact itemType_keeps fun noFault => told noFault item rfl
      · trivial

theorem invokeType_keeps {node : Node} (stored : graph.Stored node) :
    (graph.invokeType node).Keeps (graph.ruleContract fault) fun _ => True :=
  (baseType_keeps sound stored).bind fun _ _ => trivial

theorem selectorType_keeps {node : Node} (stored : graph.Stored node)
    (kind : node.kind = .fieldSelector) :
    (graph.selectorType node).Keeps (graph.ruleContract fault) fun _ => True := by
  refine (Keeps.read (openRequired?_meets sound stored
    fun _ => by simp [kind, NodeKind.requiredSlots])).bind fun nameNode? _ => ?_
  cases nameNode?.bind Node.identifier? with
  | none => trivial
  | some name =>
      refine (Keeps.read (hasChild_meets sound node.id Slot.wrappedOptional)).bind
        fun isOptional _ => ?_
      exact (baseType_keeps sound stored).bind fun _ _ => trivial

theorem selectorNames_meets {selectors : List Node} :
    Meets fault (fun _ => True) (graph.selectorNames selectors) := by
  induction selectors with
  | nil => trivial
  | cons selector rest ih =>
      unfold selectorNames
      refine (openChild?_meets sound selector.id Slot.wrappedContent).bind fun nameNode? _ => ?_
      cases nameNode?.bind Node.identifier? with
      | none => exact ih
      | some name => exact ih.bind fun _ _ => trivial

theorem projectionType_keeps {node : Node} (stored : graph.Stored node)
    (kind : node.kind = .fieldProjection) :
    (graph.projectionType node).Keeps (graph.ruleContract fault) fun _ => True := by
  refine (Keeps.read (elementsAt_meets sound stored
    (fun _ => by simp [kind, NodeKind.requiredSlots]) fun _ => by rw [kind]; rfl)).bind
    fun selectors _ => ?_
  refine (Keeps.read (selectorNames_meets sound)).bind fun names _ => ?_
  refine (Keeps.read (hasChild_meets sound node.id Slot.wrappedOptional)).bind
    fun isOptional _ => ?_
  exact (baseType_keeps sound stored).bind fun _ _ => trivial

theorem itemAccessType_keeps {node : Node} (stored : graph.Stored node)
    (kind : node.kind = .itemAccessExpression) :
    (graph.itemAccessType node).Keeps (graph.ruleContract fault) fun _ => True := by
  refine (Keeps.read (openRequired?_meets sound stored
    fun _ => by simp [kind, NodeKind.requiredSlots])).bind fun content? _ => ?_
  refine (Keeps.read (hasChild_meets sound node.id Slot.wrappedOptional)).bind
    fun isOptional _ => ?_
  exact (baseType_keeps sound stored).bind fun _ _ => trivial

theorem typePrimaryType_keeps {node : Node} (stored : graph.Stored node)
    (kind : node.kind = .typePrimaryType) :
    (graph.typePrimaryType node).Keeps (graph.ruleContract fault) fun _ => True := by
  refine (childType_keeps sound stored fun _ => by simp [kind, NodeKind.requiredSlots]).bind
    fun denoted _ => ?_
  split <;> trivial

omit sound in
theorem specifiedFields_keeps {specifications : List FieldSpecification}
    (fields : List (String × Ty))
    (stored : ∀ specification ∈ specifications, ∀ type, specification.type? = some type →
      graph.Stored type) :
    (specifiedFields fields specifications).Keeps (graph.ruleContract fault) fun _ => True := by
  induction specifications generalizing fields with
  | nil => trivial
  | cons specification rest ih =>
      have others := fun fields =>
        ih fields fun other member => stored other (List.mem_cons_of_mem _ member)
      unfold specifiedFields
      cases hasType : specification.type? with
      | none => exact others _
      | some type =>
          refine (Keeps.askType (stored specification (by simp) type hasType)).bind fun ty _ => ?_
          exact others _

theorem declaredFields_keeps {fieldList : Node} (stored : graph.Stored fieldList)
    (isList : ¬fault → fieldList.kind = .fieldSpecificationList) :
    (graph.declaredFields fieldList).Keeps (graph.ruleContract fault) fun _ => True := by
  refine (Keeps.read (fieldSpecifications_meets sound stored isList)).bind fun fields facts => ?_
  exact (specifiedFields_keeps [] facts).bind fun _ _ => trivial

theorem recordTypeType_keeps {node : Node} (stored : graph.Stored node)
    (kind : node.kind = .recordType) :
    (graph.recordTypeType node).Keeps (graph.ruleContract fault) fun _ => True := by
  refine (Keeps.read (openRequired?_meets sound stored
    fun _ => by simp [kind, NodeKind.requiredSlots])).bind fun fieldList? reading => ?_
  cases fieldList? with
  | none => trivial
  | some fieldList =>
      refine (declaredFields_keeps sound (reading.inSlot rfl).childOf.stored fun noFault => ?_).bind
        fun _ _ => trivial
      exact List.mem_singleton.mp
        ((sound noFault).restricted stored (reading.inSlot rfl) (by rw [kind]; rfl))

theorem tableTypeType_keeps {node : Node} (stored : graph.Stored node)
    (kind : node.kind = .tableType) :
    (graph.tableTypeType node).Keeps (graph.ruleContract fault) fun _ => True := by
  refine (Keeps.read (openRequired?_meets sound stored
    fun _ => by simp [kind, NodeKind.requiredSlots])).bind fun row? reading => ?_
  cases row? with
  | none => trivial
  | some row =>
      have rowStored := (reading.inSlot rfl).childOf.stored
      simp only
      split
      · rename_i isList
        exact (declaredFields_keeps sound rowStored fun _ => isList).bind fun _ _ => trivial
      · refine (Keeps.askType rowStored).bind fun ty _ => ?_
        split <;> trivial

theorem listTypeType_keeps {node : Node} (stored : graph.Stored node)
    (kind : node.kind = .listType) :
    (graph.listTypeType node).Keeps (graph.ruleContract fault) fun _ => True :=
  (childType_keeps sound stored fun _ => by simp [kind, NodeKind.requiredSlots]).bind
    fun _ _ => trivial

theorem functionTypeType_keeps {node : Node} (stored : graph.Stored node)
    (kind : node.kind = .functionType) :
    (graph.functionTypeType node).Keeps (graph.ruleContract fault) fun _ => True :=
  (Keeps.read (functionSignature_meets sound stored (Or.inr kind))).bind fun _ _ => trivial

theorem nullableTypeType_keeps {node : Node} (stored : graph.Stored node)
    (required : Slot.paired ∈ node.kind.requiredSlots) :
    (graph.nullableTypeType node).Keeps (graph.ruleContract fault) fun _ => True :=
  (childType_keeps sound stored fun _ => required).bind fun _ _ => trivial

theorem fieldSpecificationType_keeps {node : Node} :
    (graph.fieldSpecificationType node).Keeps (graph.ruleContract fault) fun _ => True := by
  refine (Keeps.read (openChild?_meets sound node.id Slot.fieldType)).bind
    fun annotation? reading => ?_
  cases annotation? with
  | none => trivial
  | some annotation => exact Keeps.askType (reading.inSlot rfl).childOf.stored

theorem typingRule_keeps {node : Node} (stored : graph.Stored node) :
    (graph.typingRule node).Keeps (graph.ruleContract fault) fun _ => True := by
  have child : ∀ {slot : Nat}, slot ∈ node.kind.requiredSlots →
      (graph.childType node slot).Keeps (graph.ruleContract fault) fun _ => True :=
    fun required => childType_keeps sound stored fun _ => required
  unfold typingRule
  cases kind : node.kind with
  | arrayWrapper | constant | fieldSpecificationList | generalizedIdentifier | parameterList
  | «section» | isExpression | errorRaisingExpression | notImplementedExpression => trivial
  | eachExpression | parenthesizedExpression | asType | asNullablePrimitiveType
  | isNullablePrimitiveType | fieldTypeSpecification | otherwiseExpression | asExpression | csv
  | letExpression | metadataExpression | rangeExpression | generalizedIdentifierPairedAnyLiteral
  | generalizedIdentifierPairedExpression | identifierPairedExpression | sectionMember =>
      exact child (by simp [kind, NodeKind.requiredSlots])
  | nullableType | nullablePrimitiveType =>
      exact nullableTypeType_keeps sound stored (by simp [kind, NodeKind.requiredSlots])
  | literalExpression => exact literalType_keeps sound stored kind
  | primitiveType => exact primitiveType_keeps sound stored kind
  | arithmeticExpression | equalityExpression | logicalExpression | relationalExpression =>
      exact operationType_keeps sound stored (by rw [kind]; rfl)
  | unaryExpression => exact unaryType_keeps sound stored kind
  | nullCoalescingExpression => exact coalescingType_keeps sound stored kind
  | errorHandlingExpression => exact errorHandlingType_keeps sound stored kind
  | ifExpression => exact ifType_keeps sound stored kind
  | listExpression => exact listType_keeps sound stored (Or.inl kind)
  | listLiteral => exact listType_keeps sound stored (Or.inr kind)
  | recordExpression => exact recordType_keeps sound stored (Or.inl kind)
  | recordLiteral => exact recordType_keeps sound stored (Or.inr kind)
  | functionExpression => exact functionType_keeps sound stored kind
  | parameter => exact parameterNodeType_keeps sound stored kind
  | identifier => exact identifierType_keeps sound stored
  | identifierExpression => exact dereferencedType_keeps sound stored
  | recursivePrimaryExpression => exact chainType_keeps sound stored kind
  | invokeExpression => exact invokeType_keeps sound stored
  | fieldSelector => exact selectorType_keeps sound stored kind
  | fieldProjection => exact projectionType_keeps sound stored kind
  | itemAccessExpression => exact itemAccessType_keeps sound stored kind
  | typePrimaryType => exact typePrimaryType_keeps sound stored kind
  | recordType => exact recordTypeType_keeps sound stored kind
  | tableType => exact tableTypeType_keeps sound stored kind
  | listType => exact listTypeType_keeps sound stored kind
  | functionType => exact functionTypeType_keeps sound stored kind
  | fieldSpecification => exact fieldSpecificationType_keeps sound

end

end Graph

end FormulaInspection
