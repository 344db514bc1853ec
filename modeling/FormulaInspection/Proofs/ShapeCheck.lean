import FormulaInspection.Graph.Builder
import FormulaInspection.Proofs.Ancestry
import FormulaInspection.Proofs.Shape

/-!
The shape of a graph can be checked: all the conditions speak of stored nodes and of their children,
which are finitely many.
-/

namespace FormulaInspection.Graph

variable {graph : Graph}

def storedNodes (graph : Graph) : List Node :=
  graph.storedIds.filterMap graph.node?

theorem mem_storedNodes {node : Node} : node ∈ graph.storedNodes ↔ graph.Stored node := by
  constructor
  · intro member
    obtain ⟨id, _, found⟩ := List.mem_filterMap.mp member
    exact ⟨id, found⟩
  · rintro ⟨id, found⟩
    exact List.mem_filterMap.mpr ⟨id, mem_storedIds.mpr (by simp [found]), found⟩

def childrenOf (graph : Graph) (parent : NodeId) : List Node :=
  (graph.childIds parent).filterMap graph.node?

theorem mem_childrenOf {parent : NodeId} {child : Node} :
    child ∈ graph.childrenOf parent ↔ graph.ChildOf parent child := by
  simp [childrenOf, ChildOf]

def childrenInSlot (graph : Graph) (parent : NodeId) (slot : Nat) : List Node :=
  (graph.childrenOf parent).filter fun child => child.slot = some slot

theorem mem_childrenInSlot {parent : NodeId} {slot : Nat} {child : Node} :
    child ∈ graph.childrenInSlot parent slot ↔ graph.InSlot parent slot child := by
  simp only [childrenInSlot, List.mem_filter, decide_eq_true_eq, mem_childrenOf]
  exact ⟨fun facts => ⟨facts.1, facts.2⟩, fun inSlot => ⟨inSlot.childOf, inSlot.slot⟩⟩

def elementsOf (graph : Graph) (wrapper : NodeId) : List Node :=
  (graph.childrenOf wrapper).flatMap fun child =>
    if child.kind = .csv then graph.childrenInSlot child.id Slot.csvNode else [child]

theorem mem_elementsOf {wrapper : NodeId} {node : Node} :
    node ∈ graph.elementsOf wrapper ↔ graph.ElementOf wrapper node := by
  simp only [elementsOf, List.mem_flatMap, mem_childrenOf]
  constructor
  · rintro ⟨child, childOf, held⟩
    split at held
    · rename_i isCell
      exact .cell childOf isCell (mem_childrenInSlot.mp held)
    · rename_i notCell
      obtain rfl := List.mem_singleton.mp held
      exact .plain childOf notCell
  · intro element
    cases element with
    | plain childOf notCell => exact ⟨node, childOf, by simp [notCell]⟩
    | @cell cell _ childOf isCell inSlot =>
        exact ⟨cell, childOf, by simpa [isCell] using mem_childrenInSlot.mpr inSlot⟩

def elementsIn (graph : Graph) (owner : NodeId) (slot : Nat) : List Node :=
  ((graph.childrenInSlot owner slot).filter fun wrapper => wrapper.kind = .arrayWrapper).flatMap
    fun wrapper => graph.elementsOf wrapper.id

theorem mem_elementsIn {owner : NodeId} {slot : Nat} {node : Node} :
    node ∈ graph.elementsIn owner slot ↔ graph.ElementAt owner slot node := by
  simp only [elementsIn, List.mem_flatMap, List.mem_filter, decide_eq_true_eq, mem_childrenInSlot,
    mem_elementsOf, ElementAt, and_assoc]

theorem RootPath.acyclic {id : NodeId} {above : List Node} (path : graph.RootPath id above) :
    ¬Relation.TransGen graph.IsParent id id := by
  obtain ⟨root, toRoot, noParent⟩ :
      ∃ root, graph.Below id root ∧ graph.parentId? root = none := by
    induction path with
    | root noParent => exact ⟨_, .refl, noParent⟩
    | step hasParent _ _ ih =>
        obtain ⟨root, toRoot, noParent⟩ := ih
        exact ⟨root, .head hasParent toRoot, noParent⟩
  exact not_circle_of_below_root noParent toRoot

theorem treeShaped_iff :
    graph.TreeShaped ↔
      (∀ id ∈ graph.storedIds, ∀ node ∈ graph.node? id, node.id = id) ∧
      (∀ child ∈ graph.parents.keys, ∀ parent ∈ graph.parentId? child,
        (graph.node? child).isSome ∧ (graph.node? parent).isSome ∧
          child ∈ graph.childIds parent) ∧
      (∀ parent ∈ graph.children.keys, (graph.childIds parent).Nodup ∧
        ∀ child ∈ graph.childIds parent, graph.parentId? child = some parent) ∧
      ∀ id ∈ graph.storedIds, (graph.nodesAbove graph.size id).isOk := by
  have key_of_parent : ∀ {child parent}, graph.parentId? child = some parent →
      child ∈ graph.parents.keys := by
    intro child parent hasParent
    rw [Std.ExtTreeMap.mem_keys, Std.ExtTreeMap.mem_iff_isSome_getElem?]
    exact Option.isSome_of_mem hasParent
  have key_of_child : ∀ {child parent}, child ∈ graph.childIds parent →
      parent ∈ graph.children.keys := by
    intro child parent member
    rw [Std.ExtTreeMap.mem_keys]
    by_contra missing
    simp [childIds, Std.ExtTreeMap.getElem?_eq_none missing] at member
  constructor
  · intro tree
    refine ⟨fun id _ node found => tree.ownId found, ?_, ?_, ?_⟩
    · intro child _ parent hasParent
      exact ⟨(tree.linked hasParent).1, (tree.linked hasParent).2, tree.mirrored.mpr hasParent⟩
    · intro parent _
      exact ⟨tree.once parent, fun child member => tree.mirrored.mp member⟩
    · intro id member
      obtain ⟨above, path, short⟩ := tree.exists_rootPath (mem_storedIds.mp member)
      simp [nodesAbove_of_rootPath path short, Except.isOk, Except.toBool]
  · rintro ⟨ownId, links, children, climbs⟩
    refine ⟨?_, ?_, ?_, ?_, ?_⟩
    · intro id node found
      exact ownId id (mem_storedIds.mpr (by simp [found])) node found
    · intro child parent hasParent
      obtain ⟨childStored, parentStored, _⟩ := links child (key_of_parent hasParent) parent hasParent
      exact ⟨childStored, parentStored⟩
    · intro child parent
      constructor
      · exact fun member => (children parent (key_of_child member)).2 child member
      · exact fun hasParent => (links child (key_of_parent hasParent) parent hasParent).2.2
    · intro parent
      by_cases listed : parent ∈ graph.children.keys
      · exact (children parent listed).1
      · rw [Std.ExtTreeMap.mem_keys] at listed
        simp [childIds, Std.ExtTreeMap.getElem?_eq_none listed]
    · intro id loop
      obtain ⟨parent, hasParent, _⟩ := Relation.TransGen.head'_iff.mp loop
      have stored := (links id (key_of_parent hasParent) parent hasParent).1
      have climbed := climbs id (mem_storedIds.mpr stored)
      cases above : graph.nodesAbove graph.size id with
      | ok nodes => exact (rootPath_of_nodesAbove above).acyclic loop
      | error failure => simp [above, Except.isOk, Except.toBool] at climbed

instance : Decidable graph.TreeShaped :=
  decidable_of_iff _ treeShaped_iff.symm

def IsWhole (graph : Graph) (node : Node) : Prop :=
  node.isComplete →
    (∀ slot ∈ node.kind.requiredSlots, graph.childrenInSlot node.id slot ≠ []) ∧
    (node.kind = .literalExpression → node.literal?.isSome) ∧
    (node.kind = .primitiveType → node.primitive?.isSome)

instance (node : Node) : Decidable (graph.IsWhole node) :=
  inferInstanceAs (Decidable (_ → _ ∧ _ ∧ _))

def FitsKinds (graph : Graph) (node : Node) : Prop :=
  (∀ child ∈ graph.childrenOf node.id, ∀ slot ∈ child.slot,
    (∀ kinds ∈ node.kind.slotKinds slot, child.kind ∈ kinds) ∧
    (∀ kinds ∈ node.kind.elementKinds slot, ∀ element ∈ graph.elementsIn node.id slot,
      element.kind ∈ kinds)) ∧
  (node.kind = .fieldSpecificationList →
    ∀ specification ∈ graph.elementsIn node.id Slot.wrappedContent,
      ∀ child ∈ graph.childrenInSlot specification.id Slot.fieldType,
        child.kind = .fieldTypeSpecification) ∧
  (node.kind ∈ NodeKind.pairKinds → ∀ key ∈ graph.childrenInSlot node.id Slot.pairKey,
    key.isComplete → key.identifier?.isSome)

instance (node : Node) : Decidable (graph.FitsKinds node) :=
  inferInstanceAs (Decidable (_ ∧ _ ∧ _))

theorem shapeCorrect_iff :
    graph.ShapeCorrect ↔
      graph.TreeShaped ∧ ∀ node ∈ graph.storedNodes, graph.FitsKinds node ∧ graph.IsWhole node := by
  constructor
  · intro shape
    refine ⟨shape.toTreeShaped, fun node member => ?_⟩
    have stored := mem_storedNodes.mp member
    refine ⟨⟨?_, ?_, ?_⟩, ?_⟩
    · intro child childOf slot inSlot
      have place : graph.InSlot node.id slot child := ⟨mem_childrenOf.mp childOf, inSlot⟩
      exact ⟨fun kinds allowed => shape.restricted stored place allowed,
        fun kinds allowed element held =>
          shape.elements stored (mem_elementsIn.mp held) allowed⟩
    · intro isList specification held child inSlot
      exact shape.fieldTypes stored isList (mem_elementsIn.mp held) (mem_childrenInSlot.mp inSlot)
    · intro isPair key inSlot complete
      cases key with
      | ast spelled => exact shape.keys stored isPair (mem_childrenInSlot.mp inSlot)
      | context begun => simp [Node.isComplete] at complete
    · cases node with
      | context begun => simp [IsWhole, Node.isComplete]
      | ast whole =>
          intro _
          refine ⟨fun slot required => ?_, shape.literals stored, shape.primitives stored⟩
          obtain ⟨child, inSlot⟩ := shape.required stored required
          exact List.ne_nil_of_mem (mem_childrenInSlot.mpr inSlot)
  · rintro ⟨tree, fits⟩
    have kindsFit : ∀ {node}, graph.Stored node → graph.FitsKinds node :=
      fun stored => (fits _ (mem_storedNodes.mpr stored)).1
    have isWhole := fun {node : AstNode} (stored : graph.Stored (.ast node)) =>
      (fits _ (mem_storedNodes.mpr stored)).2 rfl
    refine ⟨tree, ?_, ?_, ?_, ?_, ?_, ?_, ?_⟩
    · intro node slot stored required
      obtain ⟨child, inSlot⟩ := List.exists_mem_of_ne_nil _ ((isWhole stored).1 slot required)
      exact ⟨child, mem_childrenInSlot.mp inSlot⟩
    · intro parent child slot kinds stored inSlot allowed
      exact ((kindsFit stored).1 child (mem_childrenOf.mpr inSlot.childOf) slot inSlot.slot).1 kinds
        allowed
    · intro owner element slot kinds stored held allowed
      obtain ⟨wrapper, place, _⟩ := id held
      exact ((kindsFit stored).1 wrapper (mem_childrenOf.mpr place.childOf) slot place.slot).2 kinds
        allowed element (mem_elementsIn.mpr held)
    · intro list specification child stored isList held inSlot
      exact (kindsFit stored).2.1 isList specification (mem_elementsIn.mpr held) child
        (mem_childrenInSlot.mpr inSlot)
    · exact fun stored => (isWhole stored).2.1
    · exact fun stored => (isWhole stored).2.2
    · intro pair key stored isPair inSlot
      exact (kindsFit stored).2.2 isPair (.ast key) (mem_childrenInSlot.mpr inSlot) rfl

instance : Decidable graph.ShapeCorrect :=
  decidable_of_iff _ shapeCorrect_iff.symm

end FormulaInspection.Graph
