import FormulaInspection.Graph.Basic
import Mathlib.Data.List.Perm.Subperm
import Mathlib.Logic.Relation

/-!
Graphs whose links form trees, and the paths in them. Every stored node of such a graph has a path
to its root, no longer than the graph has nodes, and what the slots of a node give are its children.
-/

namespace FormulaInspection.Graph

variable {graph : Graph}

def Stored (graph : Graph) (node : Node) : Prop :=
  ∃ id, graph.node? id = some node

def Keyed (graph : Graph) : Prop :=
  ∀ {id node}, graph.node? id = some node → node.id = id

def IsParent (graph : Graph) (child parent : NodeId) : Prop :=
  graph.parentId? child = some parent

def Below (graph : Graph) (low high : NodeId) : Prop :=
  Relation.ReflTransGen graph.IsParent low high

/-- Every node is stored under its own id, linked nodes exist, children and parents mirror each
other, and no node lies below itself. -/
structure TreeShaped (graph : Graph) : Prop where
  ownId : ∀ {id node}, graph.node? id = some node → node.id = id
  linked : ∀ {child parent}, graph.parentId? child = some parent →
    (graph.node? child).isSome ∧ (graph.node? parent).isSome
  mirrored : ∀ {child parent}, child ∈ graph.childIds parent ↔ graph.parentId? child = some parent
  once : ∀ parent, (graph.childIds parent).Nodup
  acyclic : ∀ id, ¬Relation.TransGen graph.IsParent id id

theorem node_eq_ok {id : NodeId} {node : Node} :
    graph.node id = .ok node ↔ graph.node? id = some node := by
  unfold Graph.node
  split
  · rename_i found
    simp [found]
  · rename_i missing
    simp [missing]

theorem node_eq_error {id : NodeId} {failure : InspectionError} :
    graph.node id = .error failure ↔ graph.node? id = none ∧ failure = .missingNode id := by
  unfold Graph.node
  split
  · rename_i found
    simp [found]
  · rename_i missing
    simp [missing, eq_comm]

section

variable {first : Except InspectionError Node} {rest : Except InspectionError (List Node)}
  {nodes : List Node} {failure : InspectionError}

theorem read_cons_eq_ok : (do return (← first) :: (← rest)) = Except.ok nodes ↔
    ∃ node others, first = .ok node ∧ rest = .ok others ∧ nodes = node :: others := by
  cases first <;> cases rest <;> simp [bind, Except.bind, pure, Except.pure, eq_comm]

theorem read_cons_eq_error : (do return (← first) :: (← rest)) = Except.error failure ↔
    first = .error failure ∨ ∃ node, first = .ok node ∧ rest = .error failure := by
  cases first <;> cases rest <;> simp [bind, Except.bind, pure, Except.pure]

end

theorem nodes_cons {id : NodeId} {rest : List NodeId} {node : Node} {nodes : List Node}
    (found : graph.node? id = some node) (others : graph.nodes rest = .ok nodes) :
    graph.nodes (id :: rest) = .ok (node :: nodes) :=
  read_cons_eq_ok.mpr ⟨node, nodes, node_eq_ok.mpr found, others, rfl⟩

theorem Keyed.stored_iff (keyed : graph.Keyed) {node : Node} :
    graph.Stored node ↔ graph.node? node.id = some node := by
  constructor
  · rintro ⟨id, found⟩
    rw [keyed found]
    exact found
  · intro found
    exact ⟨node.id, found⟩

theorem TreeShaped.stored_iff (tree : graph.TreeShaped) {node : Node} :
    graph.Stored node ↔ graph.node? node.id = some node :=
  Keyed.stored_iff tree.ownId

theorem TreeShaped.stored_eq (tree : graph.TreeShaped) {node other : Node}
    (stored : graph.Stored node) (otherStored : graph.Stored other) (same : node.id = other.id) :
    node = other := by
  rw [tree.stored_iff] at stored otherStored
  rw [same, otherStored] at stored
  exact (Option.some.inj stored).symm

def storedIds (graph : Graph) : List NodeId :=
  graph.astNodes.keys ++ graph.contextNodes.keys

theorem length_storedIds : graph.storedIds.length = graph.size := by
  simp [storedIds, size, Std.ExtTreeMap.length_keys]

theorem mem_storedIds {id : NodeId} : id ∈ graph.storedIds ↔ (graph.node? id).isSome := by
  simp only [storedIds, List.mem_append, Std.ExtTreeMap.mem_keys,
    Std.ExtTreeMap.mem_iff_isSome_getElem?, Graph.node?]
  cases graph.astNodes[id]? with
  | some node => simp
  | none => simp

theorem length_le_size {ids : List NodeId} (unique : ids.Nodup)
    (stored : ∀ id ∈ ids, (graph.node? id).isSome) : ids.length ≤ graph.size := by
  have inside : ids ⊆ graph.storedIds := fun id member => mem_storedIds.mpr (stored id member)
  rw [← length_storedIds]
  exact (List.subperm_of_subset unique inside).length_le

inductive RootPath (graph : Graph) : NodeId → List Node → Prop
  | root {id} : graph.parentId? id = none → RootPath graph id []
  | step {id parent node rest} : graph.parentId? id = some parent →
      graph.node? parent = some node → RootPath graph parent rest →
      RootPath graph id (node :: rest)

theorem nodesAbove_root {steps : Nat} {id : NodeId} (noParent : graph.parentId? id = none) :
    graph.nodesAbove steps id = .ok [] := by
  unfold Graph.nodesAbove
  simp [noParent]

theorem nodesAbove_step {steps : Nat} {id parent : NodeId}
    (hasParent : graph.parentId? id = some parent) :
    graph.nodesAbove (steps + 1) id =
      (do return (← graph.node parent) :: (← graph.nodesAbove steps parent)) := by
  rw [Graph.nodesAbove.eq_def]
  simp only [hasParent]

theorem nodesAbove_of_rootPath {id : NodeId} {nodes : List Node} {steps : Nat}
    (path : graph.RootPath id nodes) (enough : nodes.length ≤ steps) :
    graph.nodesAbove steps id = .ok nodes := by
  induction path generalizing steps with
  | root noParent => exact nodesAbove_root noParent
  | step hasParent found _ ih =>
      cases steps with
      | zero => simp at enough
      | succ steps =>
          rw [nodesAbove_step hasParent]
          exact read_cons_eq_ok.mpr ⟨_, _, node_eq_ok.mpr found, ih (by simpa using enough), rfl⟩

theorem rootPath_of_nodesAbove {steps : Nat} {id : NodeId} {nodes : List Node}
    (found : graph.nodesAbove steps id = .ok nodes) : graph.RootPath id nodes := by
  induction steps generalizing id nodes with
  | zero =>
      cases hasParent : graph.parentId? id with
      | none =>
          obtain rfl : [] = nodes := by simpa [nodesAbove_root hasParent] using found
          exact .root hasParent
      | some parent => simp [Graph.nodesAbove, hasParent] at found
  | succ steps ih =>
      cases hasParent : graph.parentId? id with
      | none =>
          obtain rfl : [] = nodes := by simpa [nodesAbove_root hasParent] using found
          exact .root hasParent
      | some parent =>
          rw [nodesAbove_step hasParent] at found
          obtain ⟨node, above, read, climbed, rfl⟩ := read_cons_eq_ok.mp found
          exact .step hasParent (node_eq_ok.mp read) (ih climbed)

theorem RootPath.unique {id : NodeId} {nodes others : List Node} (path : graph.RootPath id nodes)
    (other : graph.RootPath id others) : nodes = others := by
  induction path generalizing others with
  | root noParent =>
      cases other with
      | root _ => rfl
      | step hasParent _ _ => simp [noParent] at hasParent
  | step hasParent found _ ih =>
      cases other with
      | root noParent => simp [noParent] at hasParent
      | step hasParent' found' rest' =>
          obtain rfl := Option.some.inj (hasParent.symm.trans hasParent')
          obtain rfl := Option.some.inj (found.symm.trans found')
          rw [ih rest']

theorem RootPath.stored {id : NodeId} {nodes : List Node} (path : graph.RootPath id nodes)
    {node : Node} (member : node ∈ nodes) : graph.Stored node := by
  induction path with
  | root _ => simp at member
  | step _ found _ ih =>
      rcases List.mem_cons.mp member with rfl | later
      · exact ⟨_, found⟩
      · exact ih later

theorem RootPath.rest {id : NodeId} {nodes : List Node} (tree : graph.TreeShaped)
    (path : graph.RootPath id nodes) {node : Node} (member : node ∈ nodes) :
    ∃ rest, graph.RootPath node.id rest ∧ rest.length < nodes.length := by
  induction path with
  | root _ => simp at member
  | step _ found further ih =>
      rcases List.mem_cons.mp member with rfl | later
      · rw [tree.ownId found]
        exact ⟨_, further, by simp⟩
      · obtain ⟨rest, restPath, shorter⟩ := ih later
        exact ⟨rest, restPath, by simp only [List.length_cons]; omega⟩

theorem RootPath.mem_iff {id : NodeId} {nodes : List Node} (tree : graph.TreeShaped)
    (path : graph.RootPath id nodes) {high : NodeId} :
    (∃ node ∈ nodes, node.id = high) ↔ Relation.TransGen graph.IsParent id high := by
  induction path with
  | root noParent =>
      simp only [List.not_mem_nil, false_and, exists_false, false_iff]
      intro above
      obtain ⟨parent, link, _⟩ := Relation.TransGen.head'_iff.mp above
      simp [IsParent, noParent] at link
  | step hasParent found further ih =>
      rename_i start parent node rest
      rw [Relation.TransGen.head'_iff]
      constructor
      · rintro ⟨other, member, rfl⟩
        refine ⟨parent, hasParent, ?_⟩
        rcases List.mem_cons.mp member with rfl | later
        · rw [tree.ownId found]
        · exact (ih.mp ⟨other, later, rfl⟩).to_reflTransGen
      · rintro ⟨next, link, above⟩
        obtain rfl := Option.some.inj (hasParent.symm.trans link)
        rcases Relation.reflTransGen_iff_eq_or_transGen.mp above with same | higher
        · exact ⟨node, by simp, (tree.ownId found).trans same.symm⟩
        · obtain ⟨other, member, same⟩ := ih.mpr higher
          exact ⟨other, List.mem_cons_of_mem _ member, same⟩

structure Climb (graph : Graph) (passed : List NodeId) (id : NodeId) : Prop where
  unique : (id :: passed).Nodup
  stored : ∀ other ∈ id :: passed, (graph.node? other).isSome
  under : ∀ other ∈ passed, Relation.TransGen graph.IsParent other id

theorem Climb.start {id : NodeId} (stored : (graph.node? id).isSome) : graph.Climb [] id where
  unique := by simp
  stored := by simpa using stored
  under := by simp

theorem Climb.step (tree : graph.TreeShaped) {passed : List NodeId} {id parent : NodeId}
    (climb : graph.Climb passed id) (hasParent : graph.parentId? id = some parent) :
    graph.Climb (id :: passed) parent where
  unique := by
    refine List.nodup_cons.mpr ⟨?_, climb.unique⟩
    intro repeated
    rcases List.mem_cons.mp repeated with rfl | earlier
    · exact tree.acyclic parent (.single hasParent)
    · exact tree.acyclic parent ((climb.under parent earlier).tail hasParent)
  stored := by
    intro other member
    rcases List.mem_cons.mp member with rfl | earlier
    · exact (tree.linked hasParent).2
    · exact climb.stored other earlier
  under := by
    intro other member
    rcases List.mem_cons.mp member with rfl | earlier
    · exact .single hasParent
    · exact (climb.under other earlier).tail hasParent

theorem Climb.rootPath (tree : graph.TreeShaped) {steps : Nat} {passed : List NodeId} {id : NodeId}
    (climb : graph.Climb passed id) (enough : graph.size ≤ steps + passed.length + 1) :
    ∃ nodes, graph.RootPath id nodes ∧ nodes.length ≤ steps := by
  induction steps generalizing passed id with
  | zero =>
      cases hasParent : graph.parentId? id with
      | none => exact ⟨[], .root hasParent, by simp⟩
      | some parent =>
          have further := climb.step tree hasParent
          have bound := length_le_size further.unique further.stored
          simp only [List.length_cons] at bound
          omega
  | succ steps ih =>
      cases hasParent : graph.parentId? id with
      | none => exact ⟨[], .root hasParent, by simp⟩
      | some parent =>
          obtain ⟨node, found⟩ := Option.isSome_iff_exists.mp (tree.linked hasParent).2
          obtain ⟨nodes, path, short⟩ := ih (climb.step tree hasParent)
            (by simp only [List.length_cons]; omega)
          exact ⟨node :: nodes, .step hasParent found path, by simpa using short⟩

theorem TreeShaped.exists_rootPath (tree : graph.TreeShaped) {id : NodeId}
    (stored : (graph.node? id).isSome) :
    ∃ nodes, graph.RootPath id nodes ∧ nodes.length ≤ graph.size :=
  (Climb.start stored).rootPath tree (by simp)

theorem ancestry_of_rootPath {id : NodeId} {node : Node} {above : List Node}
    (found : graph.node? id = some node) (path : graph.RootPath id above)
    (short : above.length ≤ graph.size) : graph.ancestry id = .ok (node :: above) :=
  read_cons_eq_ok.mpr ⟨node, above, node_eq_ok.mpr found, nodesAbove_of_rootPath path short, rfl⟩

theorem ancestry_eq_ok {id : NodeId} {path : List Node} (found : graph.ancestry id = .ok path) :
    ∃ node above, path = node :: above ∧ graph.node? id = some node ∧ graph.RootPath id above := by
  obtain ⟨node, above, read, climbed, rfl⟩ := read_cons_eq_ok.mp found
  exact ⟨node, above, rfl, node_eq_ok.mp read, rootPath_of_nodesAbove climbed⟩

theorem TreeShaped.ancestry_eq (tree : graph.TreeShaped) {id : NodeId} {node : Node}
    {above : List Node} (found : graph.node? id = some node) (path : graph.RootPath id above) :
    graph.ancestry id = .ok (node :: above) := by
  have stored : (graph.node? id).isSome := by simp [found]
  obtain ⟨others, otherPath, short⟩ := tree.exists_rootPath stored
  obtain rfl := path.unique otherPath
  exact ancestry_of_rootPath found path short

theorem isParent_rightUnique : Relator.RightUnique graph.IsParent := by
  intro child first second toFirst toSecond
  exact Option.some.inj (toFirst.symm.trans toSecond)

theorem TreeShaped.below_child (tree : graph.TreeShaped) {low node child parent : NodeId}
    (underNode : graph.Below low node) (underChild : graph.Below low child)
    (link : graph.IsParent child parent) (inside : Relation.TransGen graph.IsParent node parent) :
    graph.Below node child := by
  rcases Relation.ReflTransGen.total_of_right_unique isParent_rightUnique underNode underChild with
    below | below
  · exact below
  · rcases Relation.ReflTransGen.cases_head below with same | ⟨next, toNext, rest⟩
    · rw [same]
      exact .refl
    · obtain rfl := isParent_rightUnique toNext link
      exact absurd (Relation.TransGen.trans_right rest inside) (tree.acyclic next)

theorem TreeShaped.sibling_unique (tree : graph.TreeShaped) {low left right parent : NodeId}
    (underLeft : graph.Below low left) (underRight : graph.Below low right)
    (leftParent : graph.IsParent left parent) (rightParent : graph.IsParent right parent) :
    left = right := by
  have below := tree.below_child underLeft underRight rightParent (.single leftParent)
  rcases Relation.ReflTransGen.cases_head below with same | ⟨next, toNext, rest⟩
  · exact same
  · obtain rfl := isParent_rightUnique toNext leftParent
    exact absurd (Relation.TransGen.tail' rest rightParent) (tree.acyclic next)

def ChildOf (graph : Graph) (parent : NodeId) (child : Node) : Prop :=
  ∃ id ∈ graph.childIds parent, graph.node? id = some child

structure InSlot (graph : Graph) (parent : NodeId) (slot : Nat) (child : Node) : Prop where
  childOf : graph.ChildOf parent child
  slot : child.slot = some slot

theorem ChildOf.stored {parent : NodeId} {child : Node} (childOf : graph.ChildOf parent child) :
    graph.Stored child := by
  obtain ⟨id, _, found⟩ := childOf
  exact ⟨id, found⟩

theorem TreeShaped.childOf_iff (tree : graph.TreeShaped) {parent : NodeId} {child : Node} :
    graph.ChildOf parent child ↔ graph.Stored child ∧ graph.IsParent child.id parent := by
  constructor
  · rintro ⟨id, member, found⟩
    refine ⟨⟨id, found⟩, ?_⟩
    rw [tree.ownId found]
    exact tree.mirrored.mp member
  · rintro ⟨stored, link⟩
    exact ⟨child.id, tree.mirrored.mpr link, tree.stored_iff.mp stored⟩

theorem ChildOf.isParent {parent : NodeId} {child : Node} (childOf : graph.ChildOf parent child)
    (tree : graph.TreeShaped) : graph.IsParent child.id parent :=
  (tree.childOf_iff.mp childOf).2

theorem TreeShaped.parent_unique (tree : graph.TreeShaped) {left right : NodeId} {child : Node}
    (ofLeft : graph.ChildOf left child) (ofRight : graph.ChildOf right child) : left = right :=
  Option.some.inj ((ofLeft.isParent tree).symm.trans (ofRight.isParent tree))

end FormulaInspection.Graph
