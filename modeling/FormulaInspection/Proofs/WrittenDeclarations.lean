import FormulaInspection.Graph.Signature
import FormulaInspection.Proofs.WrittenPairs

/-!
Field lists and function signatures read back as they were declared: names, optional marks and types
of the fields or parameters in their order, and the declared result.
-/

namespace FormulaInspection

def ParameterSignature.declaring
    (declaration : String × Bool × Option (PrimitiveName × Bool)) (id : NodeId) :
    ParameterSignature :=
  { id
    name := declaration.1
    isOptional := declaration.2.1
    isNullable := (declaration.2.2.map (·.2)).getD true
    declared? := declaration.2.2.map (·.1) }

def IsMark (isOptional : Bool) (mark : List (Nat × NodeId)) : Prop :=
  isOptional = true ∧ (∃ word, mark = [(Slot.parameterOptional, word)]) ∨
    isOptional = false ∧ mark = []

def IsAscription (slot : Nat) (declared? : Option (PrimitiveName × Bool))
    (places : List (Nat × NodeId)) : Prop :=
  (∃ declared ascription, declared? = some declared ∧ places = [(slot, ascription)]) ∨
    declared? = none ∧ places = []

namespace Graph

variable {graph : Graph} {id : NodeId} {kind : NodeKind} {children : List (Nat × NodeId)}
  {slot : Nat}

def WrittenMark (graph : Graph) (mark : List (Nat × NodeId)) : Prop :=
  ∀ place ∈ mark, graph.Written place.2 ⟨.constant, some (.token .optionalWord), []⟩

theorem Written.mark_eq {isOptional : Bool} {mark others : List (Nat × NodeId)}
    (written : graph.Written id ⟨kind, some .none, mark ++ others⟩)
    (isMark : IsMark isOptional mark) (markWritten : graph.WrittenMark mark)
    (unmarked : Slot.parameterOptional ∉ others.map (·.1)) :
    ∃ mark?, graph.child? id Slot.parameterOptional = .ok mark? ∧ mark?.isSome = isOptional ∧
      mark?.any (fun mark => mark.kind == .constant) = isOptional := by
  rcases isMark with ⟨rfl, word, rfl⟩ | ⟨rfl, rfl⟩
  · obtain ⟨wordSlot?, wordStored⟩ := (markWritten _ List.mem_cons_self).complete
    exact ⟨_, written.child?_eq none (by simp) wordStored (by simp), rfl, rfl⟩
  · exact ⟨none, written.child?_eq_none none unmarked, rfl, rfl⟩

def ReadsField (graph : Graph) (entry : String × Bool × Option NodeId) (id : NodeId) : Prop :=
  ∃ node nameNode type?, graph.node? id = some node ∧
    graph.child? node.id Slot.fieldName = .ok (some nameNode) ∧
    nameNode.identifier? = some entry.1 ∧
    graph.hasChild node.id Slot.fieldOptional = .ok entry.2.1 ∧
    graph.fieldType? node = .ok type? ∧ type?.map Node.id = entry.2.2

theorem readFields_eq {entries : List (String × Bool × Option NodeId)} {ids : List NodeId}
    (reads : List.Forall₂ graph.ReadsField entries ids) :
    ∃ nodes fields, graph.nodes ids = .ok nodes ∧ graph.readFields nodes = .ok fields ∧
      fields.map FieldSpecification.entry = entries := by
  induction reads with
  | nil => exact ⟨[], [], rfl, rfl, rfl⟩
  | @cons entry id _ _ first _ ih =>
      obtain ⟨node, nameNode, type?, found, nameRead, isName, markRead, typeRead, typeId⟩ := first
      obtain ⟨nodes, fields, othersFound, othersRead, otherEntries⟩ := ih
      refine ⟨node :: nodes, ⟨entry.1, entry.2.1, type?⟩ :: fields,
        nodes_cons found othersFound, ?_, ?_⟩
      · simp [readFields, nameRead, isName, markRead, typeRead, othersRead, bind, Except.bind, pure,
          Except.pure]
      · simp [FieldSpecification.entry, typeId, otherEntries]

theorem Written.readsField {name : String} {isOptional : Bool} {type? : Option NodeId}
    {mark others : List (Nat × NodeId)} {nameId : NodeId}
    (written : graph.Written id ⟨.fieldSpecification, some .none, mark ++ others⟩)
    (isMark : IsMark isOptional mark) (markWritten : graph.WrittenMark mark)
    (unmarked : Slot.fieldOptional ∉ others.map (·.1)) (member : (Slot.fieldName, nameId) ∈ others)
    (nameWritten : graph.Written nameId ⟨.generalizedIdentifier, some (.identifier name), []⟩)
    (typeReads : ∃ found?, (∀ node, node.id = id → graph.fieldType? node = .ok found?) ∧
      found?.map Node.id = type?) : graph.ReadsField (name, isOptional, type?) id := by
  obtain ⟨found?, typeRead, typeId⟩ := typeReads
  obtain ⟨slot?, stored⟩ := written.complete
  obtain ⟨nameSlot?, nameStored⟩ := nameWritten.complete
  obtain ⟨mark?, markFound, isMarked, -⟩ := written.mark_eq isMark markWritten unmarked
  have nameRead := written.child?_eq none (List.mem_append_right mark member) nameStored (by simp)
  have markRead : graph.hasChild id Slot.fieldOptional = .ok isOptional := by
    simp [hasChild, markFound, isMarked, Except.map]
  exact ⟨_, _, found?, stored, nameRead, rfl, markRead, typeRead _ rfl, typeId⟩

theorem Written.fieldSpecifications_eq {entries : List (String × Bool × Option NodeId)}
    {ids : List NodeId} {content : NodeId} {isOpen : Bool}
    (written : graph.Written id ⟨kind, some .none, children⟩)
    (member : (Slot.wrappedContent, content) ∈ children) (holds : graph.HoldsArray content ids)
    (reads : List.Forall₂ graph.ReadsField entries ids)
    (marked : graph.hasChild id Slot.openMarker = .ok isOpen) :
    ∃ list listed, graph.node? id = some list ∧
      graph.fieldSpecifications list = .ok (listed, isOpen) ∧
      listed.map FieldSpecification.entry = entries := by
  obtain ⟨slot?, stored⟩ := written.complete
  obtain ⟨contents, contentsRead, found⟩ := written.contentsAt_eq stored member holds
  obtain ⟨nodes, listed, foundNodes, read, entriesRead⟩ := readFields_eq reads
  rw [found, Except.ok.injEq] at foundNodes
  subst foundNodes
  refine ⟨_, listed, stored, ?_, entriesRead⟩
  simp [fieldSpecifications, contentsRead, read, Node.id, marked, bind, Except.bind, pure,
    Except.pure]

def ReadsAscription (graph : Graph) (declared : PrimitiveName × Bool) (id : NodeId) : Prop :=
  ∃ node, graph.node? id = some node ∧ graph.ascription? node = .ok (some declared)

def ReadsDeclared (graph : Graph) (declared? : Option (PrimitiveName × Bool))
    (places : List (Nat × NodeId)) : Prop :=
  ∀ declared ∈ declared?, ∀ place ∈ places, graph.ReadsAscription declared place.2

theorem Written.ascriptionAt?_eq {declared? : Option (PrimitiveName × Bool)}
    {places : List (Nat × NodeId)} (written : graph.Written id ⟨kind, some .none, children⟩)
    (isAscription : IsAscription slot declared? places)
    (reads : graph.ReadsDeclared declared? places) (inside : places ⊆ children)
    (absent : places = [] → slot ∉ children.map (·.1)) :
    graph.ascriptionAt? id slot = .ok declared? := by
  rcases isAscription with ⟨declared, ascription, rfl, rfl⟩ | ⟨rfl, rfl⟩
  · obtain ⟨node, found, read⟩ := reads declared rfl _ List.mem_cons_self
    have child_eq := written.child?_eq none (inside List.mem_cons_self) found (by simp)
    simp [ascriptionAt?, child_eq, read, bind, Except.bind]
  · have child_eq := written.child?_eq_none none (absent rfl)
    simp [ascriptionAt?, child_eq, bind, Except.bind, pure, Except.pure]

def ReadsParameter (graph : Graph) (declaration : String × Bool × Option (PrimitiveName × Bool))
    (id : NodeId) : Prop :=
  ∃ node, graph.node? id = some node ∧
    graph.parameterSignature? node = .ok (some (.declaring declaration id))

theorem Written.readsParameter {name : String} {isOptional : Bool}
    {declared? : Option (PrimitiveName × Bool)} {mark ascription : List (Nat × NodeId)}
    {nameId : NodeId} (written : graph.Written id ⟨.parameter, some .none,
      mark ++ [(Slot.parameterName, nameId)] ++ ascription⟩)
    (nameWritten : graph.Written nameId ⟨.identifier, some (.identifier name), []⟩)
    (isMark : IsMark isOptional mark) (markWritten : graph.WrittenMark mark)
    (isAscription : IsAscription Slot.parameterType declared? ascription)
    (ascriptionReads : graph.ReadsDeclared declared? ascription) :
    graph.ReadsParameter (name, isOptional, declared?) id := by
  obtain ⟨slot?, stored⟩ := written.complete
  obtain ⟨nameSlot?, nameStored⟩ := nameWritten.complete
  have nameRead := written.child?_eq (some [.identifier])
    (by simp : (Slot.parameterName, nameId) ∈ _) nameStored (by simp [Node.kind])
  have typeRead : graph.ascriptionAt? id Slot.parameterType = .ok declared? := by
    refine written.ascriptionAt?_eq isAscription ascriptionReads (by simp) ?_
    rintro rfl
    rcases isMark with ⟨-, word, rfl⟩ | ⟨-, rfl⟩ <;> simp +decide
  rw [List.append_assoc] at written
  obtain ⟨mark?, markFound, -, rfl⟩ := written.mark_eq isMark markWritten (by
    rcases isAscription with ⟨declared, ascriptionId, -, rfl⟩ | ⟨-, rfl⟩ <;> simp +decide)
  refine ⟨_, stored, ?_⟩
  cases declared? with
  | none =>
      simp [parameterSignature?, checkKind, Node.kind, Node.id, nameRead, markFound, typeRead,
        Node.identifier?, Node.payload, ParameterSignature.declaring, bind, Except.bind, pure,
        Except.pure]
  | some declared =>
      simp [parameterSignature?, checkKind, Node.kind, Node.id, nameRead, markFound, typeRead,
        Node.identifier?, Node.payload, ParameterSignature.declaring, bind, Except.bind, pure,
        Except.pure]

theorem parameterSignatures_eq
    {declarations : List (String × Bool × Option (PrimitiveName × Bool))} {ids : List NodeId}
    (reads : List.Forall₂ graph.ReadsParameter declarations ids) :
    ∃ nodes, graph.nodes ids = .ok nodes ∧ graph.parameterSignatures nodes =
      .ok (List.zipWith ParameterSignature.declaring declarations ids) := by
  induction reads with
  | nil => exact ⟨[], rfl, rfl⟩
  | cons first _ ih =>
      obtain ⟨node, found, read⟩ := first
      obtain ⟨nodes, othersFound, othersRead⟩ := ih
      refine ⟨node :: nodes, nodes_cons found othersFound, ?_⟩
      simp [parameterSignatures, read, othersRead, bind, Except.bind, pure, Except.pure]

end Graph

namespace Builder

open FormulaInspection.Graph

variable {pool : List NodeId} {told : Graph → NodeId → Prop}

theorem Assembles.afterMark {isOptional : Bool} {next : List (Nat × NodeId) → Build NodeId}
    (rest : ∀ mark, IsMark isOptional mark → Makes (mark.map (·.2) ++ pool) (next mark)
      fun graph id => graph.WrittenMark mark → told graph id) :
    Makes pool (optionalMark isOptional >>= next) told := by
  cases isOptional with
  | false =>
      exact (rest [] (.inr ⟨rfl, rfl⟩)).weaken fun _ _ _ tells => tells (by simp [WrittenMark])
  | true =>
      have whole : Makes pool
          (token .optionalWord >>= fun word => next [(Slot.parameterOptional, word)]) told := by
        apply Assembles.bindNew (leaf_makes _ _)
        intro word
        exact (rest _ (.inl ⟨rfl, word, rfl⟩)).weaken fun _ _ _ tells written =>
          tells (by simpa [WrittenMark] using written)
      exact whole

theorem nullablePrimitiveType_makes (primitive : PrimitiveName) :
    Makes [] (nullablePrimitiveType primitive) fun graph id => ∃ nullable inner,
      graph.Written id
        ⟨.nullablePrimitiveType, some .none, [(0, nullable), (Slot.paired, inner)]⟩ ∧
      graph.Written inner ⟨.primitiveType, some (.primitive primitive), []⟩ := by
  apply Assembles.bindNew (leaf_makes _ _)
  intro nullable
  apply Assembles.bindNew (leaf_makes _ _)
  intro inner
  exact .ast (by grind) (by simp +decide) fun _ _ _ written innerWritten _ =>
    ⟨nullable, inner, written, innerWritten⟩

theorem asNullablePrimitiveType_makes (primitive : PrimitiveName) (isNullable : Bool) :
    Makes [] (asNullablePrimitiveType primitive isNullable) fun graph id =>
      graph.ReadsAscription (primitive, isNullable) id := by
  apply Assembles.bindNew (leaf_makes _ _)
  intro asWord
  cases isNullable with
  | false =>
      apply Assembles.bindNew (leaf_makes .primitiveType (.primitive primitive))
      intro paired
      refine .ast (by grind) (by simp +decide) ?_
      intro graph _ id written pairedWritten _
      obtain ⟨slot?, stored⟩ := written.complete
      obtain ⟨pairedSlot?, pairedStored⟩ := pairedWritten.complete
      have paired_eq := written.child?_eq none (by simp : (Slot.paired, paired) ∈ _) pairedStored
        (by simp)
      refine ⟨_, stored, ?_⟩
      simp [ascription?, checkKind, Node.kind, Node.id, paired_eq, Node.primitive?, Node.payload,
        bind, Except.bind, pure, Except.pure]
  | true =>
      apply Assembles.bindNew (nullablePrimitiveType_makes primitive)
      intro paired
      refine .ast (by grind) (by simp +decide) ?_
      rintro graph _ id written ⟨nullable, inner, pairedWritten, innerWritten⟩ _
      obtain ⟨slot?, stored⟩ := written.complete
      obtain ⟨pairedSlot?, pairedStored⟩ := pairedWritten.complete
      obtain ⟨innerSlot?, innerStored⟩ := innerWritten.complete
      have paired_eq := written.child?_eq none (by simp : (Slot.paired, paired) ∈ _) pairedStored
        (by simp)
      have inner_eq := pairedWritten.child?_eq none (by simp : (Slot.paired, inner) ∈ _) innerStored
        (by simp)
      refine ⟨_, stored, ?_⟩
      simp [ascription?, checkKind, Node.kind, Node.id, paired_eq, inner_eq, Node.primitive?,
        Node.payload, bind, Except.bind, pure, Except.pure]

theorem Assembles.afterAscription {slot : Nat} {declared? : Option (PrimitiveName × Bool)}
    {next : List (Nat × NodeId) → Build NodeId}
    (rest : ∀ places, IsAscription slot declared? places →
      Makes (places.map (·.2) ++ pool) (next places) fun graph id =>
        graph.ReadsDeclared declared? places → told graph id) :
    Makes pool (ascription slot declared? >>= next) told := by
  cases declared? with
  | none =>
      exact (rest [] (.inr ⟨rfl, rfl⟩)).weaken fun _ _ _ tells => tells (by simp [ReadsDeclared])
  | some declared =>
      have whole : Makes pool (asNullablePrimitiveType declared.1 declared.2 >>=
          fun ascription => next [(slot, ascription)]) told := by
        apply Assembles.bindNew (asNullablePrimitiveType_makes _ _)
        intro ascription
        exact (rest _ (.inl ⟨declared, ascription, rfl, rfl⟩)).weaken fun _ _ _ tells reads =>
          tells (by simpa [ReadsDeclared] using reads)
      exact whole

theorem parameter_makes (name : String) (isOptional : Bool)
    (declared? : Option (PrimitiveName × Bool)) :
    Makes [] (parameter name isOptional declared?) fun graph id =>
      graph.ReadsParameter (name, isOptional, declared?) id := by
  apply Assembles.afterMark
  intro mark isMark
  apply Assembles.bindNew (leaf_makes _ _)
  intro nameId
  apply Assembles.afterAscription
  intro ascription isAscription
  refine .ast (by grind) ?_ ?_
  · rcases isMark with ⟨-, word, rfl⟩ | ⟨-, rfl⟩ <;>
      rcases isAscription with ⟨declared, ascriptionId, -, rfl⟩ | ⟨-, rfl⟩ <;>
      simp +decide
  · intro graph _ id written ascriptionReads nameWritten markWritten
    exact written.readsParameter nameWritten isMark markWritten isAscription ascriptionReads

theorem parameterList_makes (parameters : List NodeId) :
    Makes parameters (parameterList parameters) fun graph id => ∃ node contents,
      graph.node? id = some node ∧ node.kind = .parameterList ∧
      graph.contentsAt node Slot.wrappedContent = .ok contents ∧
      graph.nodes parameters = .ok contents := by
  apply (csvArray_makes parameters).bindAll
  intro content
  refine (wrapped_makes _ _ content _ _).weaken ?_
  rintro graph _ id ⟨children, written, member, -⟩ holds
  obtain ⟨slot?, stored⟩ := written.complete
  obtain ⟨contents, read, found⟩ := written.contentsAt_eq stored member holds
  exact ⟨_, contents, stored, rfl, read, found⟩

theorem functionExpression_makes (parameters : List NodeId)
    (declared? : Option (PrimitiveName × Bool)) (body : NodeId) :
    Makes (parameters ++ [body]) (functionExpression parameters declared? body) fun graph id =>
      ∀ declarations, List.Forall₂ graph.ReadsParameter declarations parameters →
        ∃ function, graph.node? id = some function ∧ graph.functionSignature function =
          .ok ⟨List.zipWith ParameterSignature.declaring declarations parameters, declared?⟩ := by
  apply (parameterList_makes parameters).bind
  intro list
  apply Assembles.afterAscription
  intro ascription isAscription
  apply Assembles.bindNew (leaf_makes _ _)
  intro arrow
  refine .ast (by grind) ?_ ?_
  · rcases isAscription with ⟨declared, ascriptionId, -, rfl⟩ | ⟨-, rfl⟩ <;> simp +decide
  · rintro graph _ id written _ ascriptionReads ⟨listNode, contents, found, isList, read, nodesRead⟩
      declarations reads
    obtain ⟨slot?, stored⟩ := written.complete
    have listRead := written.requiredChild?_eq stored (some [.parameterList])
      (by simp : (Slot.functionParameters, list) ∈ _) found (by simp [isList])
    have typeRead : graph.ascriptionAt? id Slot.functionReturnType = .ok declared? := by
      refine written.ascriptionAt?_eq isAscription ascriptionReads (by simp) ?_
      rintro rfl
      simp +decide
    obtain ⟨nodes, foundNodes, signatures⟩ := parameterSignatures_eq reads
    rw [nodesRead, Except.ok.injEq] at foundNodes
    subst foundNodes
    refine ⟨_, stored, ?_⟩
    simp [functionSignature, Node.kind, signatureAt, parametersAt, listRead, read, signatures,
      Node.id, typeRead, bind, Except.bind, pure, Except.pure]

theorem fieldSpecification_makes (name : String) (isOptional : Bool) (type? : Option NodeId) :
    Makes type?.toList (fieldSpecification name isOptional type?) fun graph id =>
      graph.ReadsField (name, isOptional, type?) id := by
  apply Assembles.afterMark
  intro mark isMark
  apply Assembles.bindNew (leaf_makes _ _)
  intro nameId
  cases type? with
  | none =>
      refine .ast (by grind) ?_ ?_
      · rcases isMark with ⟨-, word, rfl⟩ | ⟨-, rfl⟩ <;> simp +decide
      · intro graph _ id written nameWritten markWritten
        have noType : graph.child? id Slot.fieldType (some [.fieldTypeSpecification]) =
            .ok none := by
          apply written.child?_eq_none
          rcases isMark with ⟨-, word, rfl⟩ | ⟨-, rfl⟩ <;> simp +decide
        refine written.readsField isMark markWritten (by simp +decide) (by simp) nameWritten
          ⟨none, ?_, rfl⟩
        rintro node rfl
        simp [fieldType?, noType, bind, Except.bind, pure, Except.pure]
  | some fieldType =>
      apply Assembles.bindNew (leaf_makes _ _)
      intro equal
      have specificationMade : Makes [equal, fieldType]
          (node .fieldTypeSpecification [(0, equal), (Slot.paired, fieldType)]) fun graph id =>
            graph.Written id
              ⟨.fieldTypeSpecification, some .none, [(0, equal), (Slot.paired, fieldType)]⟩ :=
        .ast (.refl _) (by simp +decide) fun _ _ _ written => written
      apply Assembles.bindPart
        (by grind : List.Perm _ ([equal, fieldType] ++ (nameId :: mark.map (·.2))))
        specificationMade
      intro specification
      refine .ast (by grind) ?_ ?_
      · rcases isMark with ⟨-, word, rfl⟩ | ⟨-, rfl⟩ <;> simp +decide
      · intro graph keyed id written specificationWritten _ nameWritten markWritten
        obtain ⟨slot?, stored⟩ := specificationWritten.complete
        obtain ⟨typeNode, typeStored⟩ :=
          specificationWritten.exists_child (by simp : (Slot.paired, fieldType) ∈ _)
        have specificationRead := written.child?_eq (some [.fieldTypeSpecification])
          (by simp : (Slot.fieldType, specification) ∈ _) stored (by simp [Node.kind])
        have typeRead := specificationWritten.child?_eq none
          (by simp : (Slot.paired, fieldType) ∈ _) typeStored (by simp)
        rw [List.append_assoc] at written
        refine written.readsField isMark markWritten (by simp +decide) (by simp) nameWritten
          ⟨some typeNode, ?_, by simp [keyed typeStored]⟩
        rintro node rfl
        simp only [fieldType?, specificationRead, bind, Except.bind]
        exact typeRead

theorem fieldSpecifications_assembles (fields : List (String × Option NodeId)) :
    Assembles (fields.flatMap (·.2.toList)) (fieldSpecifications fields) (fun ids => ids)
      fun graph ids => List.Forall₂ graph.ReadsField
        (fields.map fun field => (field.1, false, field.2)) ids := by
  induction fields with
  | nil => exact .pure (.refl _) fun _ => .nil
  | cons field rest ih =>
      exact (fieldSpecification_makes field.1 false field.2).cons ih fun _ _ _ => List.Forall₂.cons

theorem fieldSpecificationList_makes (fields : List (String × Option NodeId)) (isOpen : Bool) :
    Makes (fields.flatMap (·.2.toList)) (fieldSpecificationList fields isOpen) fun graph id =>
      ∃ list listed, graph.node? id = some list ∧
        graph.fieldSpecifications list = .ok (listed, isOpen) ∧
        listed.map FieldSpecification.entry =
          fields.map fun field => (field.1, false, field.2) := by
  apply (fieldSpecifications_assembles fields).bindAll
  intro ids
  apply Assembles.bindNew (leaf_makes _ _)
  intro opening
  apply Assembles.bindPart (List.perm_append_comm : List.Perm _ (ids ++ [opening]))
    (csvArray_makes ids)
  intro content
  apply Assembles.bindNew (leaf_makes _ _)
  intro closing
  cases isOpen with
  | false =>
      refine .ast (by grind) (by simp +decide) ?_
      intro graph _ id written _ holds _ reads
      have noMark : graph.child? id Slot.openMarker = .ok none :=
        written.child?_eq_none none (by simp +decide)
      have isClosed : graph.hasChild id Slot.openMarker = .ok false := by
        simp [hasChild, noMark, Except.map]
      exact written.fieldSpecifications_eq (by simp) holds reads isClosed
  | true =>
      apply Assembles.bindNew (leaf_makes _ _)
      intro ellipsis
      refine .ast (by grind) (by simp +decide) ?_
      intro graph _ id written markWritten _ holds _ reads
      obtain ⟨markSlot?, markStored⟩ := markWritten.complete
      have mark := written.child?_eq none (by simp : (Slot.openMarker, ellipsis) ∈ _) markStored
        (by simp)
      have isOpen : graph.hasChild id Slot.openMarker = .ok true := by
        simp [hasChild, mark, Except.map]
      exact written.fieldSpecifications_eq (by simp) holds reads isOpen

end Builder

end FormulaInspection
