import FormulaInspection.Proofs.Entering

/-!
Postfix chains. An element looks for what stands in front of it and takes something out of its type.
So the type of a chain is asked for from its end, and comes out as what the elements take out of the
head one after the other, from left to right.
-/

namespace FormulaInspection

inductive Elimination where
  | call
  | field (name : String) (isOptional : Bool)
  | fields (names : List String) (isOptional : Bool)
  | item (index? : Option Nat) (isOptional : Bool)
  deriving DecidableEq

def Ty.eliminate (base : Ty) : Elimination → Ty
  | .call => base.call
  | .field name isOptional => base.selectField name isOptional
  | .fields names isOptional => base.projectFields names isOptional
  | .item index? isOptional => base.accessItem index? isOptional

namespace Graph

variable {graph : Graph} {node chain head wrapper : Node} {tail before after : List Node}

inductive Eliminates (graph : Graph) (node : Node) : Elimination → Prop
  | call : node.kind = .invokeExpression → Eliminates graph node .call
  | field {content name isOptional} : node.kind = .fieldSelector →
      graph.requiredChild? node Slot.wrappedContent = .ok (some content) →
      content.identifier? = some name →
      graph.hasChild node.id Slot.wrappedOptional = .ok isOptional →
      Eliminates graph node (.field name isOptional)
  | fields {selectors names isOptional} : node.kind = .fieldProjection →
      graph.elementsAt node Slot.wrappedContent = .ok selectors →
      graph.selectorNames selectors = .ok names →
      graph.hasChild node.id Slot.wrappedOptional = .ok isOptional →
      Eliminates graph node (.fields names isOptional)
  | item {content isOptional} : node.kind = .itemAccessExpression →
      graph.requiredChild? node Slot.wrappedContent = .ok (some content) →
      graph.hasChild node.id Slot.wrappedOptional = .ok isOptional →
      Eliminates graph node (.item (literalIndex? content) isOptional)

theorem Eliminates.typingRule_eq {elimination : Elimination}
    (eliminates : graph.Eliminates node elimination) :
    graph.typingRule node =
      graph.baseType node >>= fun base => .answer (base.eliminate elimination) := by
  unfold typingRule
  cases eliminates with
  | call kind =>
      rw [kind]
      rfl
  | field kind written named marked =>
      rw [kind]
      unfold selectorType
      simp only [written, marked, Demand.bind_read, Option.bind_some, named]
      rfl
  | fields kind listed named marked =>
      rw [kind]
      unfold projectionType
      simp only [listed, named, marked, Demand.bind_read]
      rfl
  | item kind written marked =>
      rw [kind]
      unfold itemAccessType
      simp only [written, marked, Demand.bind_read]
      rfl

theorem Eliminates.not_chain {elimination : Elimination}
    (eliminates : graph.Eliminates node elimination) :
    node.kind ≠ .recursivePrimaryExpression := by
  cases eliminates with
  | call kind | field kind | fields kind | item kind => simp [kind]

/-- A head with the elements of a tail, which an array holds in their order. -/
structure Chain (graph : Graph) (chain head wrapper : Node) (tail : List Node) : Prop where
  kind : chain.kind = .recursivePrimaryExpression
  stored : graph.node? chain.id = some chain
  headAt : graph.requiredChild? chain Slot.chainHead = .ok (some head)
  tailAt : graph.requiredChild? chain Slot.chainTail = .ok (some wrapper)
  isArray : wrapper.kind = .arrayWrapper
  inTail : wrapper.slot = some Slot.chainTail
  above : graph.parent? wrapper.id = .ok (some chain)
  listed : graph.childIds wrapper.id = tail.map Node.id
  distinct : (tail.map Node.id).Nodup
  found : ∀ node ∈ tail, graph.node? node.id = some node
  within : ∀ node ∈ tail, graph.parent? node.id = .ok (some wrapper)

theorem elementBefore?_append {id : NodeId} {front back : List NodeId} (absent : id ∉ front)
    (previous? : Option NodeId) :
    elementBefore? id previous? (front ++ id :: back) = some (front.getLast?.or previous?) := by
  induction front generalizing previous? with
  | nil => simp [elementBefore?]
  | cons element rest ih =>
      rw [List.mem_cons, not_or] at absent
      rw [List.cons_append, elementBefore?, if_neg (Ne.symm absent.1), ih absent.2,
        List.getLast?_cons]
      cases rest.getLast? <;> rfl

theorem Chain.enclosingChain?_eq (isChain : graph.Chain chain head wrapper tail)
    (member : node ∈ tail) : graph.enclosingChain? node = .ok (some (chain, wrapper)) := by
  unfold enclosingChain?
  rw [isChain.within node member]
  simp [bind, Except.bind, isChain.isArray, isChain.inTail, isChain.above, isChain.kind, pure,
    Except.pure]

theorem Chain.apart (isChain : graph.Chain chain head wrapper tail)
    (split : tail = before ++ node :: after) : node.id ∉ before.map Node.id := by
  have distinct := isChain.distinct
  rw [split, List.map_append, List.map_cons, List.nodup_append] at distinct
  exact fun again => distinct.2.2 _ again _ List.mem_cons_self rfl

theorem Chain.previousInChain?_eq (isChain : graph.Chain chain head wrapper tail)
    (split : tail = before ++ node :: after) :
    graph.previousInChain? node = .ok (some (before.getLast?.getD head)) := by
  have member : node ∈ tail := by simp [split]
  have listed : graph.childIds wrapper.id = before.map Node.id ++ node.id :: after.map Node.id := by
    rw [isChain.listed, split, List.map_append, List.map_cons]
  unfold previousInChain?
  rw [isChain.enclosingChain?_eq member]
  simp only [bind, Except.bind, listed, elementBefore?_append (isChain.apart split),
    List.getLast?_map, Option.or_none]
  cases last? : before.getLast? with
  | none => exact isChain.headAt
  | some last =>
      have inFront := List.mem_of_getLast? last?
      have found := isChain.found last (by simp [split, inFront])
      simp [node_eq_ok.mpr found, pure, Except.pure]

theorem Chain.baseType_eq (isChain : graph.Chain chain head wrapper tail)
    (split : tail = before ++ node :: after) :
    graph.baseType node = Demand.askType (before.getLast?.getD head) := by
  unfold baseType
  rw [isChain.previousInChain?_eq split]
  rfl

theorem Chain.typingRule_eq (isChain : graph.Chain chain head wrapper tail) :
    graph.typingRule chain = Demand.askType (tail.getLast?.getD head) := by
  unfold typingRule
  rw [isChain.kind]
  unfold chainType childType
  simp only [isChain.tailAt, isChain.headAt, Demand.bind_read, isChain.listed, List.getLast?_map]
  cases last? : tail.getLast? with
  | none => rfl
  | some last =>
      have found := isChain.found last (List.mem_of_getLast? last?)
      simp only [Option.map_some, typeAt, node_eq_ok.mpr found, Demand.bind_read]
      rfl

end Graph

namespace Evaluator

open FormulaInspection.Graph

variable {evaluator : Evaluator} {chain head wrapper : Node} {state : Progress} {ty : Ty}

structure Awaits (evaluator : Evaluator) (head : Node) (ty : Ty) (nodes : List Node)
    (state : Progress) : Prop where
  never : state.cancellation = .never
  known : evaluator.knownType? state head.id = some ty
  unknown : ∀ node ∈ nodes, evaluator.knownType? state node.id = none
  fresh : ∀ node ∈ nodes, state.inProgress[node.id]? = none
  room : state.depth + nodes.length ≤ evaluator.maxDepth

theorem awaits_initial {cache : InspectionCache} {graph : Graph} {maxDepth : Nat}
    {nodes : List Node} (known : cache.types[head.id]? = some ty)
    (unknown : ∀ node ∈ nodes, node.id ∉ cache.types) (room : nodes.length ≤ maxDepth) :
    Awaits ⟨graph, maxDepth, cache.types, cache.scopes⟩ head ty nodes (.initial .never) where
  never := rfl
  known := by simpa [knownType?, Progress.initial] using known
  unknown := by
    intro node member
    simpa [knownType?, Progress.initial] using unknown node member
  fresh := by simp [Progress.initial]
  room := by simpa [Progress.initial] using room

theorem Awaits.enter {nodes others : List Node} {node : Node}
    (awaits : evaluator.Awaits head ty nodes state) (member : node ∈ nodes)
    (subset : others ⊆ nodes) (shorter : others.length < nodes.length)
    (apart : node.id ∉ others.map Node.id) :
    evaluator.Enters node state (state.enter node.id) ∧
      evaluator.Awaits head ty others (state.enter node.id) := by
  have room := awaits.room
  have unchanged : state.polled .never = state := by
    rw [Progress.polled, ← awaits.never]
  constructor
  · refine ⟨awaits.unknown node member, awaits.fresh node member, by omega, .never, ?_, ?_⟩
    · rw [awaits.never]
      rfl
    · rw [unchanged]
  · refine ⟨awaits.never, awaits.known, ?_, ?_, ?_⟩
    · exact fun other isOther => awaits.unknown other (subset isOther)
    · intro other isOther
      have different : node.id ≠ other.id :=
        fun same => apart (same ▸ List.mem_map_of_mem isOther)
      simpa [Progress.enter, Std.ExtTreeMap.getElem?_insert, different] using
        awaits.fresh other (subset isOther)
    · simp only [Progress.enter]
      omega

theorem inferNode_element {tail before after : List Node} {node : Node} {elimination : Elimination}
    {inside between : Progress} (isChain : evaluator.graph.Chain chain head wrapper tail)
    (split : tail = before ++ node :: after)
    (eliminates : evaluator.graph.Eliminates node elimination)
    (enters : evaluator.Enters node state inside)
    (previous : evaluator.inferNode (before.getLast?.getD head) inside = (.ok ty, between)) :
    ∃ final, evaluator.inferNode node state = (.ok (ty.eliminate elimination), final) := by
  have rule := eliminates.typingRule_eq
  rw [isChain.baseType_eq split] at rule
  have ran : evaluator.run evaluator.inferNode (evaluator.graph.typingRule node) inside =
      (.ok (ty.eliminate elimination), between) := by
    rw [rule]
    change evaluator.run _ (.typeOf _ _) _ = _
    rw [run_typeOf, previous]
    rfl
  exact enters.inferNode ran

/-- Inside a chain whose head is known, the last of some elements from the left has the type that they
take out of the head one after the other. -/
theorem inferNode_elements {tail after : List Node} {steps : List (Node × Elimination)}
    (isChain : evaluator.graph.Chain chain head wrapper tail)
    (split : tail = steps.map (·.1) ++ after)
    (eliminates : ∀ step ∈ steps, evaluator.graph.Eliminates step.1 step.2)
    (awaits : evaluator.Awaits head ty (steps.map (·.1)) state) :
    ∃ final, evaluator.inferNode ((steps.map (·.1)).getLast?.getD head) state =
      (.ok ((steps.map (·.2)).foldl Ty.eliminate ty), final) := by
  induction steps using List.reverseRecOn generalizing after state with
  | nil =>
      have polled : state.cancellation.poll = .ok .never := by
        rw [awaits.never]
        rfl
      exact ⟨_, inferNode_known polled awaits.known⟩
  | append_singleton front step ih =>
      have arranged : tail = front.map (·.1) ++ step.1 :: after := by simpa using split
      obtain ⟨enters, inside⟩ := awaits.enter (by simp : step.1 ∈ _)
        (by simp : front.map (·.1) ⊆ _) (by simp) (isChain.apart arranged)
      obtain ⟨between, previous⟩ := ih arranged
        (fun other isOther => eliminates other (List.mem_append_left _ isOther)) inside
      obtain ⟨final, inferred⟩ := inferNode_element isChain arranged (eliminates step (by simp))
        enters previous
      exact ⟨final, by simpa using inferred⟩

theorem inferNode_chain {steps : List (Node × Elimination)}
    (isChain : evaluator.graph.Chain chain head wrapper (steps.map (·.1)))
    (eliminates : ∀ step ∈ steps, evaluator.graph.Eliminates step.1 step.2)
    (awaits : evaluator.Awaits head ty (chain :: steps.map (·.1)) state) :
    ∃ final, evaluator.inferNode chain state =
      (.ok ((steps.map (·.2)).foldl Ty.eliminate ty), final) := by
  have apart : chain.id ∉ (steps.map (·.1)).map Node.id := by
    intro again
    obtain ⟨node, member, same⟩ := List.mem_map.mp again
    obtain ⟨step, isStep, rfl⟩ := List.mem_map.mp member
    have found := isChain.found _ member
    rw [same, isChain.stored, Option.some.injEq] at found
    exact (eliminates step isStep).not_chain (found ▸ isChain.kind)
  obtain ⟨enters, inside⟩ := awaits.enter List.mem_cons_self (List.subset_cons_self _ _)
    (Nat.lt_succ_self _) apart
  obtain ⟨between, last⟩ := inferNode_elements isChain (List.append_nil _).symm eliminates inside
  have ran : evaluator.run evaluator.inferNode (evaluator.graph.typingRule chain)
      (state.enter chain.id) = (.ok ((steps.map (·.2)).foldl Ty.eliminate ty), between) := by
    rw [isChain.typingRule_eq]
    change evaluator.run _ (.typeOf _ _) _ = _
    rw [run_typeOf, last]
    rfl
  exact enters.inferNode ran

end Evaluator

section

variable {graph : Graph} {chain head wrapper : Node} {steps : List (Node × Elimination)}
  {cache : InspectionCache} {ty : Ty} {maxDepth : Nat}

theorem Graph.Chain.inferType_last {tail after : List Node} {last : Node}
    (isChain : graph.Chain chain head wrapper tail) (split : tail = steps.map (·.1) ++ after)
    (isLast : (steps.map (·.1)).getLast? = some last)
    (eliminates : ∀ step ∈ steps, graph.Eliminates step.1 step.2)
    (known : cache.types[head.id]? = some ty)
    (unknown : ∀ node ∈ steps.map (·.1), node.id ∉ cache.types) (room : steps.length ≤ maxDepth) :
    (inferType graph last.id maxDepth cache .never).answer =
      .ok ((steps.map (·.2)).foldl Ty.eliminate ty) := by
  have awaits := @Evaluator.awaits_initial head ty cache graph maxDepth _ known unknown
    (by simpa using room)
  obtain ⟨final, inferred⟩ := Evaluator.inferNode_elements isChain split eliminates awaits
  rw [isLast] at inferred
  have found := isChain.found last (by simp [split, List.mem_of_getLast? isLast])
  exact Evaluator.inferType_of_inferNode found inferred

theorem Graph.Chain.inferType_whole (isChain : graph.Chain chain head wrapper (steps.map (·.1)))
    (eliminates : ∀ step ∈ steps, graph.Eliminates step.1 step.2)
    (known : cache.types[head.id]? = some ty)
    (unknown : ∀ node ∈ chain :: steps.map (·.1), node.id ∉ cache.types)
    (room : steps.length < maxDepth) :
    (inferType graph chain.id maxDepth cache .never).answer =
      .ok ((steps.map (·.2)).foldl Ty.eliminate ty) := by
  have awaits := @Evaluator.awaits_initial head ty cache graph maxDepth _ known unknown
    (by simpa using Nat.succ_le_of_lt room)
  obtain ⟨final, inferred⟩ := Evaluator.inferNode_chain isChain eliminates awaits
  exact Evaluator.inferType_of_inferNode isChain.stored inferred

end

end FormulaInspection
