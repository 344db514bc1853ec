import FormulaInspection.Graph.Listing
import FormulaInspection.Proofs.Assembly

/-!
Arrays read back as they were built. Looking into a slot of a written node gives the child that was
put there, and opening the cells of a comma separated array gives the elements in their order.
-/

namespace FormulaInspection

namespace Graph

variable {graph : Graph} {id child : NodeId} {slot : Nat} {node owner : Node} {kind : NodeKind}
  {payload : Payload} {children : List (Nat × NodeId)} {allowed : Option (List NodeKind)}
  {elements cells : List NodeId}

theorem exists_of_slotOf (slotted : graph.slotOf id = some slot) :
    ∃ node, graph.node? id = some node ∧ node.slot = some slot := by
  unfold slotOf at slotted
  exact Option.bind_eq_some_iff.mp slotted

theorem findInSlot_of_mem (slotted : ∀ place ∈ children, graph.slotOf place.2 = some place.1)
    (distinct : (children.map (·.1)).Nodup) (member : (slot, child) ∈ children)
    (found : graph.node? child = some node) (permitted : ∀ kinds ∈ allowed, node.kind ∈ kinds) :
    graph.findInSlot slot allowed (children.map (·.2)) = .ok (some node) := by
  induction children with
  | nil => cases member
  | cons place rest ih =>
      obtain ⟨first, firstFound, firstSlot⟩ := exists_of_slotOf (slotted place List.mem_cons_self)
      obtain ⟨apart, restDistinct⟩ := List.nodup_cons.mp distinct
      rw [List.map_cons, findInSlot, node_eq_ok.mpr firstFound]
      simp only [bind, Except.bind, firstSlot, Option.some.injEq, ne_eq]
      rcases List.mem_cons.mp member with rfl | later
      · rw [found, Option.some.injEq] at firstFound
        subst firstFound
        cases allowed with
        | none => simp
        | some kinds => simp [permitted kinds rfl]
      · have notHere : place.1 ≠ slot := by
          rintro rfl
          exact apart (List.mem_map.mpr ⟨_, later, rfl⟩)
        rw [if_pos notHere]
        exact ih (fun other isOther => slotted other (List.mem_cons_of_mem _ isOther))
          restDistinct later

theorem findInSlot_of_notMem (slotted : ∀ place ∈ children, graph.slotOf place.2 = some place.1)
    (absent : slot ∉ children.map (·.1)) :
    graph.findInSlot slot allowed (children.map (·.2)) = .ok none := by
  induction children with
  | nil => rfl
  | cons place rest ih =>
      obtain ⟨first, firstFound, firstSlot⟩ := exists_of_slotOf (slotted place List.mem_cons_self)
      rw [List.map_cons, List.mem_cons, not_or] at absent
      rw [List.map_cons, findInSlot, node_eq_ok.mpr firstFound]
      simp only [bind, Except.bind, firstSlot, Option.some.injEq, ne_eq]
      rw [if_pos (Ne.symm absent.1)]
      exact ih (fun other isOther => slotted other (List.mem_cons_of_mem _ isOther)) absent.2

namespace Written

theorem complete (written : graph.Written id ⟨kind, some payload, children⟩) :
    ∃ slot?, graph.node? id = some (.ast ⟨id, kind, slot?, payload⟩) :=
  written.node

theorem exists_child (written : graph.Written id ⟨kind, some payload, children⟩)
    (member : (slot, child) ∈ children) : ∃ node, graph.node? child = some node := by
  obtain ⟨node, found, -⟩ := exists_of_slotOf (written.slotted member)
  exact ⟨node, found⟩

theorem child?_eq (written : graph.Written id ⟨kind, some payload, children⟩)
    (allowed : Option (List NodeKind)) (member : (slot, child) ∈ children)
    (found : graph.node? child = some node)
    (permitted : ∀ kinds ∈ allowed, node.kind ∈ kinds) :
    graph.child? id slot allowed = .ok (some node) := by
  have distinct : (children.map (·.1)).Nodup :=
    List.pairwise_map.mpr (written.sorted.imp Nat.ne_of_lt)
  rw [child?, written.listed]
  exact findInSlot_of_mem (fun _ => written.slotted) distinct member found permitted

theorem child?_eq_none (written : graph.Written id ⟨kind, some payload, children⟩)
    (allowed : Option (List NodeKind)) (absent : slot ∉ children.map (·.1)) :
    graph.child? id slot allowed = .ok none := by
  rw [child?, written.listed]
  exact findInSlot_of_notMem (fun _ => written.slotted) absent

theorem requiredChild?_eq (written : graph.Written id ⟨kind, some payload, children⟩)
    (isOwner : graph.node? id = some owner) (allowed : Option (List NodeKind))
    (member : (slot, child) ∈ children) (found : graph.node? child = some node)
    (permitted : ∀ kinds ∈ allowed, node.kind ∈ kinds) :
    graph.requiredChild? owner slot allowed = .ok (some node) := by
  obtain ⟨slot?, stored⟩ := written.complete
  rw [isOwner, Option.some.injEq] at stored
  subst stored
  have isChild := written.child?_eq allowed member found permitted
  change (graph.child id slot allowed).map some = _
  rw [Graph.child, isChild]
  rfl

end Written

def OpensTo (graph : Graph) (cells elements : List NodeId) : Prop :=
  ∃ cellNodes contents, graph.nodes cells = .ok cellNodes ∧
    graph.openCells cellNodes = .ok contents ∧ graph.nodes elements = .ok contents

theorem OpensTo.nil : graph.OpensTo [] [] :=
  ⟨[], [], rfl, rfl, rfl⟩

theorem OpensTo.cell {element cell : NodeId} {rest : List (Nat × NodeId)}
    (opens : graph.OpensTo cells elements)
    (written : graph.Written cell ⟨.csv, some .none, (Slot.csvNode, element) :: rest⟩) :
    graph.OpensTo (cell :: cells) (element :: elements) := by
  obtain ⟨cellNodes, contents, cellsRead, opened, elementsRead⟩ := opens
  obtain ⟨content, found⟩ := written.exists_child List.mem_cons_self
  obtain ⟨slot?, stored⟩ := written.complete
  have content_eq : graph.requiredChild? (.ast ⟨cell, .csv, slot?, .none⟩) Slot.csvNode =
      .ok (some content) :=
    written.requiredChild?_eq stored none List.mem_cons_self found (by simp)
  refine ⟨_, content :: contents, nodes_cons stored cellsRead, ?_, nodes_cons found elementsRead⟩
  simp [openCells, Node.kind, content_eq, opened, bind, Except.bind, pure, Except.pure]

theorem OpensTo.plain {element : NodeId} (opens : graph.OpensTo cells elements)
    (found : graph.node? element = some node) (noCell : node.kind ≠ .csv) :
    graph.OpensTo (element :: cells) (element :: elements) := by
  obtain ⟨cellNodes, contents, cellsRead, opened, elementsRead⟩ := opens
  refine ⟨_, node :: contents, nodes_cons found cellsRead, ?_, nodes_cons found elementsRead⟩
  rw [openCells, if_neg noCell]
  simp [opened, bind, Except.bind, pure, Except.pure]

theorem opensTo_self (plain : ∀ element ∈ elements, ∃ node, graph.node? element = some node ∧
    node.kind ≠ .csv) : graph.OpensTo elements elements := by
  induction elements with
  | nil => exact .nil
  | cons element rest ih =>
      obtain ⟨node, found, noCell⟩ := plain element List.mem_cons_self
      exact (ih fun other member => plain other (List.mem_cons_of_mem _ member)).plain found noCell

def HoldsArray (graph : Graph) (id : NodeId) (elements : List NodeId) : Prop :=
  ∃ wrapper contents, graph.node? id = some wrapper ∧ wrapper.kind = .arrayWrapper ∧
    graph.arrayContents wrapper = .ok contents ∧ graph.nodes elements = .ok contents

def arrayPlaces (elements : List NodeId) : List (Nat × NodeId) :=
  elements.zipIdx.map fun indexed => (indexed.2, indexed.1)

theorem map_arrayPlaces : (arrayPlaces elements).map (·.2) = elements := by
  simp [arrayPlaces, Function.comp_def, List.zipIdx_map_fst]

theorem arrayPlaces_sorted : (arrayPlaces elements).Pairwise (·.1 < ·.1) := by
  have indices : (arrayPlaces elements).map (·.1) = List.range' 0 elements.length := by
    simp [arrayPlaces, Function.comp_def, List.zipIdx_map_snd]
  have increasing : ((arrayPlaces elements).map (·.1)).Pairwise (· < ·) := by
    rw [indices]
    exact List.pairwise_lt_range'
  exact List.pairwise_map.mp increasing

theorem Written.holdsArray
    (written : graph.Written id ⟨.arrayWrapper, some .none, arrayPlaces cells⟩)
    (opens : graph.OpensTo cells elements) : graph.HoldsArray id elements := by
  obtain ⟨cellNodes, contents, cellsRead, opened, elementsRead⟩ := opens
  obtain ⟨slot?, stored⟩ := written.complete
  have listed : graph.childIds id = cells := written.listed.trans map_arrayPlaces
  refine ⟨_, contents, stored, rfl, ?_, elementsRead⟩
  simp [arrayContents, checkKind, Node.kind, Node.id, childNodes, listed, cellsRead, opened,
    bind, Except.bind]

theorem Written.contentsAt_eq (written : graph.Written id ⟨kind, some payload, children⟩)
    (isOwner : graph.node? id = some owner) (member : (slot, child) ∈ children)
    (holds : graph.HoldsArray child elements) :
    ∃ contents, graph.contentsAt owner slot = .ok contents ∧
      graph.nodes elements = .ok contents := by
  obtain ⟨wrapper, contents, found, isWrapper, read, elementsRead⟩ := holds
  have wrapper_eq := written.requiredChild?_eq isOwner (some [.arrayWrapper]) member found
    (by simp [isWrapper])
  refine ⟨contents, ?_, elementsRead⟩
  simp [contentsAt, wrapper_eq, read, bind, Except.bind]

end Graph

namespace Builder

open FormulaInspection.Graph

theorem leaf_makes (kind : NodeKind) (payload : Payload) :
    Makes [] (ast kind payload []) fun graph id => graph.Written id ⟨kind, some payload, []⟩ :=
  .ast (.refl _) .nil fun _ _ _ written => written

theorem array_makes (elements : List NodeId) : Makes elements (array elements) fun graph id =>
    graph.Written id ⟨.arrayWrapper, some .none, arrayPlaces elements⟩ :=
  .ast (.of_eq map_arrayPlaces) arrayPlaces_sorted fun _ _ _ written => written

theorem csvCells_assembles (elements : List NodeId) :
    Assembles elements (csvCells elements) (fun cells => cells) fun graph cells =>
      graph.OpensTo cells elements := by
  fun_induction csvCells elements with
  | case1 => exact .pure (.refl _) fun _ => .nil
  | case2 element =>
      apply Assembles.bindAll
      · exact Assembles.ast (.refl _) (List.pairwise_singleton _ _) fun _ _ _ written => written
      · intro cell
        exact .pure (.refl _) fun graph written => OpensTo.nil.cell written
  | case3 element rest _ ih =>
      apply Assembles.bindNew (leaf_makes _ _)
      intro comma
      have cellMade : Makes [comma, element] (node .csv [(Slot.csvNode, element), (1, comma)])
          fun graph id => graph.Written id
            ⟨.csv, some .none, [(Slot.csvNode, element), (1, comma)]⟩ :=
        .ast (by grind) (by simp) fun _ _ _ written => written
      exact (cellMade.cons ih fun _ _ _ written opens => opens.cell written).weaken
        fun _ _ _ opens _ => opens

theorem csvArray_makes (elements : List NodeId) : Makes elements (csvArray elements) fun graph id =>
    graph.HoldsArray id elements := by
  apply (csvCells_assembles elements).bindAll
  intro cells
  exact (array_makes cells).weaken fun _ _ _ written opens => written.holdsArray opens

end Builder

end FormulaInspection
