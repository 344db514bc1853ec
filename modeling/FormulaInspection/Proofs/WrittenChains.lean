import FormulaInspection.Proofs.Chains
import FormulaInspection.Proofs.WrittenPairs

/-!
Chains as they are built: the elements are written as what they take out, and a chain keeps them in
their order.
-/

namespace FormulaInspection

namespace Graph

variable {graph : Graph}

def EliminatesAt (graph : Graph) (elimination : Elimination) (id : NodeId) : Prop :=
  ∃ node, graph.node? id = some node ∧ graph.Eliminates node elimination

def NamesField (graph : Graph) (name : String) (id : NodeId) : Prop :=
  ∃ node content, graph.node? id = some node ∧
    graph.child? id Slot.wrappedContent = .ok (some content) ∧ content.identifier? = some name

theorem selectorNames_eq (keyed : graph.Keyed) {names : List String} {ids : List NodeId}
    (selectors : List.Forall₂ graph.NamesField names ids) :
    ∃ nodes, graph.nodes ids = .ok nodes ∧ graph.selectorNames nodes = .ok names := by
  induction selectors with
  | nil => exact ⟨[], rfl, rfl⟩
  | cons first _ ih =>
      obtain ⟨node, content, found, written, named⟩ := first
      obtain ⟨nodes, othersFound, othersNamed⟩ := ih
      refine ⟨node :: nodes, nodes_cons found othersFound, ?_⟩
      simp [selectorNames, keyed found, written, named, othersNamed, bind, Except.bind, pure,
        Except.pure]

end Graph

namespace Builder

open FormulaInspection.Graph

theorem invoke_makes (arguments : List NodeId) : Makes arguments (invoke arguments)
    fun graph id => graph.EliminatesAt .call id := by
  apply (csvArray_makes arguments).bindAll
  intro content
  refine (wrapped_makes _ _ content _ _).weaken ?_
  rintro graph _ id ⟨children, written, -, -⟩ _
  obtain ⟨slot?, stored⟩ := written.complete
  exact ⟨_, stored, .call rfl⟩

theorem fieldSelector_makes (name : String) (isOptional : Bool) :
    Makes [] (fieldSelector name isOptional) fun graph id =>
      graph.EliminatesAt (.field name isOptional) id ∧ graph.NamesField name id := by
  apply Assembles.bindAll (leaf_makes _ _)
  intro nameId
  refine (wrapped_makes _ _ nameId _ _).weaken ?_
  rintro graph _ id ⟨children, written, member, marked⟩ nameWritten
  obtain ⟨slot?, stored⟩ := written.complete
  obtain ⟨nameSlot?, nameStored⟩ := nameWritten.complete
  have content := written.child?_eq none member nameStored (by simp)
  have required := written.requiredChild?_eq stored none member nameStored (by simp)
  exact ⟨⟨_, stored, .field rfl required rfl marked⟩, _, _, stored, content, rfl⟩

theorem fieldSelectors_assembles (names : List String) :
    Assembles [] (fieldSelectors names) (fun ids => ids) fun graph ids =>
      List.Forall₂ graph.NamesField names ids := by
  induction names with
  | nil => exact .pure (.refl _) fun _ => .nil
  | cons name rest ih =>
      exact (fieldSelector_makes name false).cons ih fun _ _ _ first => .cons first.2

theorem fieldProjection_makes (names : List String) (isOptional : Bool) :
    Makes [] (fieldProjection names isOptional) fun graph id =>
      graph.EliminatesAt (.fields names isOptional) id := by
  apply (fieldSelectors_assembles names).bindAll
  intro ids
  apply (csvArray_makes ids).bindAll
  intro content
  refine (wrapped_makes _ _ content _ _).weaken ?_
  rintro graph keyed id ⟨children, written, member, marked⟩ holds selectors
  obtain ⟨slot?, stored⟩ := written.complete
  obtain ⟨wrapper, contents, found, -, read, elements⟩ := holds
  obtain ⟨nodes, foundNodes, named⟩ := selectorNames_eq keyed selectors
  rw [elements, Except.ok.injEq] at foundNodes
  subst foundNodes
  have required := written.requiredChild?_eq stored none member found (by simp)
  refine ⟨_, stored, .fields rfl ?_ named marked⟩
  simp [elementsAt, required, read, bind, Except.bind]

theorem itemAccess_makes (index : NodeId) (isOptional : Bool) :
    Makes [index] (itemAccess index isOptional) fun graph id => graph.EliminatesAt
      (.item ((graph.node? index).bind literalIndex?) isOptional) id := by
  refine (wrapped_makes _ _ index _ _).weaken ?_
  rintro graph _ id ⟨children, written, member, marked⟩
  obtain ⟨slot?, stored⟩ := written.complete
  obtain ⟨content, found⟩ := written.exists_child member
  have required := written.requiredChild?_eq stored none member found (by simp)
  rw [found]
  exact ⟨_, stored, .item rfl required marked⟩

theorem recursivePrimary_makes (head : NodeId) (tail : List NodeId) :
    Makes (head :: tail) (recursivePrimary head tail) fun graph id =>
      ∃ chain headNode wrapper, chain.id = id ∧ headNode.id = head ∧
        ∀ nodes : List Node, nodes.map Node.id = tail → tail.Nodup →
          (∀ node ∈ nodes, graph.node? node.id = some node) →
          graph.Chain chain headNode wrapper nodes := by
  apply Assembles.bindPart (List.perm_append_comm : List.Perm ([head] ++ tail) (tail ++ [head]))
    (array_makes tail)
  intro array
  refine .ast (by grind) (by simp +decide) ?_
  intro graph keyed id written arrayWritten
  obtain ⟨slot?, stored⟩ := written.complete
  have isTail : (Slot.chainTail, array) ∈ [(Slot.chainHead, head), (Slot.chainTail, array)] := by
    simp
  obtain ⟨headNode, headFound⟩ := written.exists_child List.mem_cons_self
  obtain ⟨wrapper, wrapperFound, inTail⟩ := exists_of_slotOf (written.slotted isTail)
  obtain ⟨arraySlot?, arrayStored⟩ := arrayWritten.complete
  rw [wrapperFound, Option.some.injEq] at arrayStored
  have wrapperId := keyed wrapperFound
  have parent : graph.parentId? array = some id := written.linked isTail
  refine ⟨.ast ⟨id, .recursivePrimaryExpression, slot?, .none⟩, headNode, wrapper, rfl,
    keyed headFound, ?_⟩
  rintro nodes rfl distinct found
  have places := @map_arrayPlaces (nodes.map Node.id)
  constructor
  · rfl
  · exact stored
  · exact written.requiredChild?_eq stored none List.mem_cons_self headFound (by simp)
  · exact written.requiredChild?_eq stored none isTail wrapperFound (by simp)
  · rw [arrayStored]
    rfl
  · exact inTail
  · simp [Graph.parent?, wrapperId, parent, node_eq_ok.mpr stored, Except.map]
  · rw [wrapperId, arrayWritten.listed]
    exact places
  · exact distinct
  · exact found
  · intro node member
    have isPlaced : node.id ∈ (arrayPlaces (nodes.map Node.id)).map (·.2) := by
      rw [places]
      exact List.mem_map_of_mem member
    obtain ⟨place, isPlace, same⟩ := List.mem_map.mp isPlaced
    have parent : graph.parentId? node.id = some array := by
      rw [← same]
      exact arrayWritten.linked isPlace
    simp [Graph.parent?, parent, node_eq_ok.mpr wrapperFound, Except.map]

end Builder

end FormulaInspection
