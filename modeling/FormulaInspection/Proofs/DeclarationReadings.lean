import FormulaInspection.Proofs.Readings

/-!
What the readings of declarations give: the fields of record and table types, and the parameters and
results of functions. As with all readings, only a fault of the graph makes them fail.
-/

namespace FormulaInspection.Graph

variable {graph : Graph} {fault : Prop}

theorem fieldType?_meets (sound : ¬fault → graph.ShapeCorrect) {specification : Node}
    (fits : ¬fault → ∀ child, graph.InSlot specification.id Slot.fieldType child →
      child.kind = .fieldTypeSpecification) :
    Meets fault (fun type? => ∀ type, type? = some type → graph.Stored type)
      (graph.fieldType? specification) := by
  refine (child?_meets sound ?_).bind fun annotation? _ => ?_
  · intro noFault child inSlot kinds same
    obtain rfl := Option.some.inj same
    simp [fits noFault child inSlot]
  · cases annotation? with
    | none =>
        intro type impossible
        simp at impossible
    | some annotation =>
        refine (openChild?_meets sound annotation.id Slot.paired).weaken fun type? reading => ?_
        exact fun type same => (reading.inSlot same).childOf.stored

theorem readFields_meets (sound : ¬fault → graph.ShapeCorrect) {nodes : List Node}
    (fits : ¬fault → ∀ node ∈ nodes, ∀ child, graph.InSlot node.id Slot.fieldType child →
      child.kind = .fieldTypeSpecification) :
    Meets fault
      (fun fields => ∀ field ∈ fields, ∀ type, field.type? = some type → graph.Stored type)
      (graph.readFields nodes) := by
  induction nodes with
  | nil =>
      intro field member
      simp at member
  | cons node rest ih =>
      have others := ih fun noFault other member =>
        fits noFault other (List.mem_cons_of_mem _ member)
      unfold readFields
      refine (openChild?_meets sound node.id Slot.fieldName).bind fun nameNode? _ => ?_
      cases nameNode?.bind Node.identifier? with
      | none => exact others
      | some name =>
          refine (hasChild_meets sound node.id Slot.fieldOptional).bind fun isOptional _ => ?_
          refine (fieldType?_meets sound fun noFault => fits noFault node (by simp)).bind
            fun type? typeStored => ?_
          refine others.bind fun fields facts => ?_
          intro field member
          rcases List.mem_cons.mp member with rfl | later
          · exact typeStored
          · exact facts field later

theorem fieldSpecifications_meets (sound : ¬fault → graph.ShapeCorrect) {fieldList : Node}
    (stored : graph.Stored fieldList)
    (isList : ¬fault → fieldList.kind = .fieldSpecificationList) :
    Meets fault
      (fun fields => ∀ field ∈ fields.1, ∀ type, field.type? = some type → graph.Stored type)
      (graph.fieldSpecifications fieldList) := by
  refine (contentsAt_meets sound stored ?_ ?_).bind fun contents held => ?_
  · intro noFault
    simp [isList noFault, NodeKind.requiredSlots]
  · intro noFault
    rw [isList noFault]
    rfl
  · refine (readFields_meets sound ?_).bind fun fields facts => ?_
    · intro noFault node member child inSlot
      exact (sound noFault).fieldTypes stored (isList noFault) (held node member) inSlot
    · exact (hasChild_meets sound fieldList.id Slot.openMarker).bind fun isOpen _ => facts

theorem ascription?_meets (sound : ¬fault → graph.ShapeCorrect) {ascription : Node}
    (fits : ¬fault → ascription.kind ∈ NodeKind.ascriptionKinds) :
    Meets fault (fun _ => True) (graph.ascription? ascription) := by
  refine (checkKind_meets fits).bind fun _ _ => ?_
  refine (openChild?_meets sound ascription.id Slot.paired).bind fun paired? _ => ?_
  cases paired? with
  | none => trivial
  | some paired =>
      simp only
      split
      · trivial
      rotate_left 2
      · trivial
      all_goals
        refine (openChild?_meets sound paired.id Slot.paired).bind fun inner? _ => ?_
        cases inner? with
        | none => trivial
        | some inner =>
            simp only
            split <;> trivial

theorem ascriptionAt?_meets (sound : ¬fault → graph.ShapeCorrect) {node : Node} {slot : Nat}
    (stored : graph.Stored node)
    (restricted : ¬fault → node.kind.slotKinds slot = some NodeKind.ascriptionKinds) :
    Meets fault (fun _ => True) (graph.ascriptionAt? node.id slot) := by
  refine (openChild?_meets sound node.id slot).bind fun ascription? reading => ?_
  cases ascription? with
  | none => trivial
  | some ascription =>
      refine ascription?_meets sound fun noFault => ?_
      exact (sound noFault).restricted stored (reading.inSlot rfl) (restricted noFault)

theorem parameterSignature?_meets (sound : ¬fault → graph.ShapeCorrect) {parameter : Node}
    (stored : graph.Stored parameter)
    (isParameter : ¬fault → parameter.kind ∈ [NodeKind.parameter]) :
    Meets fault (fun _ => True) (graph.parameterSignature? parameter) := by
  refine (checkKind_meets isParameter).bind fun _ checked => ?_
  have kind : parameter.kind = .parameter := by simpa using checked
  refine (restrictedChild?_meets sound stored fun _ => by rw [kind]; rfl).bind
    fun nameNode? _ => ?_
  cases nameNode?.bind Node.identifier? with
  | none => trivial
  | some name =>
      refine (openChild?_meets sound parameter.id Slot.parameterOptional).bind fun mark? _ => ?_
      refine (ascriptionAt?_meets sound stored fun _ => by rw [kind]; rfl).bind
        fun declared? _ => ?_
      cases declared? <;> trivial

theorem parameterSignatures_meets (sound : ¬fault → graph.ShapeCorrect) {nodes : List Node}
    (stored : ∀ node ∈ nodes, graph.Stored node)
    (areParameters : ¬fault → ∀ node ∈ nodes, node.kind ∈ [NodeKind.parameter]) :
    Meets fault (fun _ => True) (graph.parameterSignatures nodes) := by
  induction nodes with
  | nil => trivial
  | cons node rest ih =>
      have others := ih (fun other member => stored other (List.mem_cons_of_mem _ member))
        fun noFault other member => areParameters noFault other (List.mem_cons_of_mem _ member)
      unfold parameterSignatures
      refine (parameterSignature?_meets sound (stored node (by simp))
        fun noFault => areParameters noFault node (by simp)).bind fun signature? _ => ?_
      cases signature? with
      | none => exact others
      | some signature => exact others.bind fun _ _ => trivial

theorem parametersAt_meets (sound : ¬fault → graph.ShapeCorrect) {function : Node} {slot : Nat}
    (stored : graph.Stored function) (required : slot ∈ function.kind.requiredSlots)
    (restricted : function.kind.slotKinds slot = some [.parameterList]) :
    Meets fault (fun _ => True) (graph.parametersAt function slot) := by
  refine (restrictedRequired?_meets sound stored (fun _ => required) fun _ => restricted).bind
    fun list? reading => ?_
  cases list? with
  | none => trivial
  | some list =>
      have listStored := (reading.inSlot rfl).childOf.stored
      have kind : list.kind = .parameterList := by simpa using reading.kind rfl rfl
      refine (contentsAt_meets sound listStored
        (fun _ => by simp [kind, NodeKind.requiredSlots]) fun _ => by rw [kind]; rfl).bind
        fun contents held => ?_
      refine parameterSignatures_meets sound (fun node member => (held node member).stored) ?_
      intro noFault node member
      exact (sound noFault).elements listStored (held node member) (by rw [kind]; rfl)

theorem signatureAt_meets (sound : ¬fault → graph.ShapeCorrect) {function : Node}
    {parameters returnType : Nat} (stored : graph.Stored function)
    (required : parameters ∈ function.kind.requiredSlots)
    (restricted : function.kind.slotKinds parameters = some [.parameterList])
    (ascribed : function.kind.slotKinds returnType = some NodeKind.ascriptionKinds) :
    Meets fault (fun _ => True) (graph.signatureAt function parameters returnType) := by
  refine (parametersAt_meets sound stored required restricted).bind fun signatures _ => ?_
  exact (ascriptionAt?_meets sound stored fun _ => ascribed).bind fun _ _ => trivial

theorem functionSignature_meets (sound : ¬fault → graph.ShapeCorrect) {function : Node}
    (stored : graph.Stored function)
    (isFunction : function.kind = .functionExpression ∨ function.kind = .functionType) :
    Meets fault (fun _ => True) (graph.functionSignature function) := by
  unfold functionSignature
  rcases isFunction with kind | kind
  · simp only [kind]
    exact signatureAt_meets sound stored (by simp [kind, NodeKind.requiredSlots])
      (by rw [kind]; rfl) (by rw [kind]; rfl)
  · simp only [kind]
    exact signatureAt_meets sound stored (by simp [kind, NodeKind.requiredSlots])
      (by rw [kind]; rfl) (by rw [kind]; rfl)

end FormulaInspection.Graph
