import FormulaInspection.Proofs.Contracts
import FormulaInspection.Proofs.Shape

/-!
What the readings of a graph give: nodes that stand where they were looked for. A reading fails
only where the shape of the graph is at fault.
-/

namespace FormulaInspection.Graph

variable {graph : Graph} {fault : Prop}

theorem ShapeCorrect.childStored (shape : graph.ShapeCorrect) {parent id : NodeId}
    (member : id ∈ graph.childIds parent) : (graph.node? id).isSome :=
  (shape.linked (shape.mirrored.mp member)).1

theorem node_meets {id : NodeId} (stored : ¬fault → (graph.node? id).isSome) :
    Meets fault (fun node => graph.node? id = some node) (graph.node id) := by
  unfold Graph.node
  cases found : graph.node? id with
  | some node => exact rfl
  | none =>
      refine ⟨?_, trivial⟩
      by_contra sound
      simpa [found] using stored sound

theorem parent?_meets (sound : ¬fault → graph.ShapeCorrect) (id : NodeId) :
    Meets fault
      (fun parent? => ∀ parent, parent? = some parent →
        ∃ link, graph.parentId? id = some link ∧ graph.node? link = some parent)
      (graph.parent? id) := by
  unfold Graph.parent?
  cases hasParent : graph.parentId? id with
  | none =>
      intro parent impossible
      simp at impossible
  | some link =>
      refine (node_meets fun noFault => ((sound noFault).linked hasParent).2).map ?_
      intro node found parent same
      obtain rfl := Option.some.inj same
      exact ⟨link, rfl, found⟩

theorem nodes_meets {ids : List NodeId} (stored : ¬fault → ∀ id ∈ ids, (graph.node? id).isSome) :
    Meets fault (fun nodes => ∀ node ∈ nodes, ∃ id ∈ ids, graph.node? id = some node)
      (graph.nodes ids) := by
  induction ids with
  | nil =>
      intro node member
      simp at member
  | cons id rest ih =>
      refine (node_meets fun noFault => stored noFault id (by simp)).bind fun node found => ?_
      refine (ih fun noFault other member =>
        stored noFault other (List.mem_cons_of_mem _ member)).bind fun nodes others => ?_
      intro other member
      rcases List.mem_cons.mp member with rfl | later
      · exact ⟨id, by simp, found⟩
      · obtain ⟨otherId, inRest, otherFound⟩ := others other later
        exact ⟨otherId, List.mem_cons_of_mem _ inRest, otherFound⟩

theorem childNodes_meets (sound : ¬fault → graph.ShapeCorrect) (parent : NodeId) :
    Meets fault (fun nodes => ∀ node ∈ nodes, graph.ChildOf parent node)
      (graph.childNodes parent) :=
  nodes_meets fun noFault _ member => (sound noFault).childStored member

theorem checkKind_meets {node : Node} {expected : List NodeKind}
    (fits : ¬fault → node.kind ∈ expected) :
    Meets fault (fun _ => node.kind ∈ expected) (checkKind node expected) := by
  unfold checkKind
  split
  · rename_i contained
    exact List.contains_iff_mem.mp contained
  · rename_i missing
    refine ⟨?_, trivial⟩
    by_contra sound
    exact missing (List.contains_iff_mem.mpr (fits sound))

structure SlotReading (graph : Graph) (parent : NodeId) (slot : Nat)
    (allowed : Option (List NodeKind)) (child? : Option Node) : Prop where
  inSlot : ∀ {child}, child? = some child → graph.InSlot parent slot child
  kind : ∀ {child kinds}, child? = some child → allowed = some kinds → child.kind ∈ kinds
  absent : child? = none → ∀ child, ¬graph.InSlot parent slot child

theorem findInSlot_meets {slot : Nat} {allowed : Option (List NodeKind)} {ids : List NodeId}
    (stored : ¬fault → ∀ id ∈ ids, (graph.node? id).isSome)
    (fits : ¬fault → ∀ id ∈ ids, ∀ child, graph.node? id = some child → child.slot = some slot →
      ∀ kinds, allowed = some kinds → child.kind ∈ kinds) :
    Meets fault
      (fun child? =>
        (∀ child, child? = some child → ∃ id ∈ ids, graph.node? id = some child ∧
          child.slot = some slot ∧ ∀ kinds, allowed = some kinds → child.kind ∈ kinds) ∧
        (child? = none → ∀ id ∈ ids, ∀ child, graph.node? id = some child →
          child.slot ≠ some slot))
      (graph.findInSlot slot allowed ids) := by
  induction ids with
  | nil => exact ⟨by simp, by simp⟩
  | cons id rest ih =>
      refine (node_meets fun noFault => stored noFault id (by simp)).bind fun node found => ?_
      by_cases inSlot : node.slot = some slot
      · rw [if_neg (not_not.mpr inSlot)]
        cases allowed with
        | none =>
            refine ⟨?_, by simp⟩
            intro child same
            obtain rfl := Option.some.inj same
            exact ⟨id, by simp, found, inSlot, by simp⟩
        | some kinds =>
            by_cases contained : kinds.contains node.kind
            · simp only [contained, if_true]
              refine ⟨?_, by simp⟩
              intro child same
              obtain rfl := Option.some.inj same
              refine ⟨id, by simp, found, inSlot, ?_⟩
              intro others same
              obtain rfl := Option.some.inj same
              exact List.contains_iff_mem.mp contained
            · simp only [contained]
              refine ⟨?_, trivial⟩
              by_contra sound
              exact contained (List.contains_iff_mem.mpr
                (fits sound id (by simp) node found inSlot kinds rfl))
      · rw [if_pos inSlot]
        refine (ih (fun noFault other member => stored noFault other (List.mem_cons_of_mem _ member))
          (fun noFault other member => fits noFault other (List.mem_cons_of_mem _ member))).weaken ?_
        rintro child? ⟨some_facts, none_facts⟩
        constructor
        · intro child same
          obtain ⟨other, member, facts⟩ := some_facts child same
          exact ⟨other, List.mem_cons_of_mem _ member, facts⟩
        · intro absent other member child hit
          rcases List.mem_cons.mp member with rfl | later
          · obtain rfl := Option.some.inj (found.symm.trans hit)
            exact inSlot
          · exact none_facts absent other later child hit

theorem child?_meets (sound : ¬fault → graph.ShapeCorrect) {parent : NodeId} {slot : Nat}
    {allowed : Option (List NodeKind)}
    (fits : ¬fault → ∀ child, graph.InSlot parent slot child →
      ∀ kinds, allowed = some kinds → child.kind ∈ kinds) :
    Meets fault (graph.SlotReading parent slot allowed) (graph.child? parent slot allowed) := by
  refine (findInSlot_meets (fun noFault _ member => (sound noFault).childStored member) ?_).weaken ?_
  · intro noFault id member child found inSlot
    exact fits noFault child ⟨⟨id, member, found⟩, inSlot⟩
  · rintro child? ⟨some_facts, none_facts⟩
    refine ⟨?_, ?_, ?_⟩
    · intro child same
      obtain ⟨id, member, found, inSlot, _⟩ := some_facts child same
      exact ⟨⟨id, member, found⟩, inSlot⟩
    · intro child kinds same restricted
      obtain ⟨_, _, _, _, facts⟩ := some_facts child same
      exact facts kinds restricted
    · rintro absent child ⟨⟨id, member, found⟩, inSlot⟩
      exact none_facts absent id member child found inSlot

theorem openChild?_meets (sound : ¬fault → graph.ShapeCorrect) (parent : NodeId) (slot : Nat) :
    Meets fault (graph.SlotReading parent slot none) (graph.child? parent slot) :=
  child?_meets sound (by simp)

theorem restrictedChild?_meets (sound : ¬fault → graph.ShapeCorrect) {parent : Node} {slot : Nat}
    {kinds : List NodeKind} (stored : graph.Stored parent)
    (restricted : ¬fault → parent.kind.slotKinds slot = some kinds) :
    Meets fault (graph.SlotReading parent.id slot (some kinds))
      (graph.child? parent.id slot (some kinds)) := by
  refine child?_meets sound ?_
  intro noFault child inSlot others same
  obtain rfl := Option.some.inj same
  exact (sound noFault).restricted stored inSlot (restricted noFault)

theorem requiredChild?_meets (sound : ¬fault → graph.ShapeCorrect) {parent : Node} {slot : Nat}
    {allowed : Option (List NodeKind)} (stored : graph.Stored parent)
    (required : ¬fault → slot ∈ parent.kind.requiredSlots)
    (read : Meets fault (graph.SlotReading parent.id slot allowed)
      (graph.child? parent.id slot allowed)) :
    Meets fault (graph.SlotReading parent.id slot allowed)
      (graph.requiredChild? parent slot allowed) := by
  cases parent with
  | context node => exact read
  | ast node =>
      have found : Meets fault (fun child => graph.SlotReading node.id slot allowed (some child))
          (graph.child node.id slot allowed) := by
        refine Meets.bind read fun child? reading => ?_
        cases child? with
        | some child => exact reading
        | none =>
            refine ⟨?_, trivial⟩
            by_contra noFault
            obtain ⟨child, inSlot⟩ := (sound noFault).required stored (required noFault)
            exact reading.absent rfl child inSlot
      exact found.map fun _ reading => reading

theorem openRequired?_meets (sound : ¬fault → graph.ShapeCorrect) {parent : Node} {slot : Nat}
    (stored : graph.Stored parent) (required : ¬fault → slot ∈ parent.kind.requiredSlots) :
    Meets fault (graph.SlotReading parent.id slot none) (graph.requiredChild? parent slot) :=
  requiredChild?_meets sound stored required (openChild?_meets sound parent.id slot)

theorem restrictedRequired?_meets (sound : ¬fault → graph.ShapeCorrect) {parent : Node} {slot : Nat}
    {kinds : List NodeKind} (stored : graph.Stored parent)
    (required : ¬fault → slot ∈ parent.kind.requiredSlots)
    (restricted : ¬fault → parent.kind.slotKinds slot = some kinds) :
    Meets fault (graph.SlotReading parent.id slot (some kinds))
      (graph.requiredChild? parent slot (some kinds)) :=
  requiredChild?_meets sound stored required (restrictedChild?_meets sound stored restricted)

theorem hasChild_meets (sound : ¬fault → graph.ShapeCorrect) (parent : NodeId) (slot : Nat) :
    Meets fault (fun _ => True) (graph.hasChild parent slot) :=
  (openChild?_meets sound parent slot).map fun _ _ => trivial

theorem openCells_meets (sound : ¬fault → graph.ShapeCorrect) {wrapper : NodeId}
    {nodes : List Node} (children : ∀ node ∈ nodes, graph.ChildOf wrapper node) :
    Meets fault (fun contents => ∀ node ∈ contents, graph.ElementOf wrapper node)
      (graph.openCells nodes) := by
  induction nodes with
  | nil =>
      intro node member
      simp at member
  | cons node rest ih =>
      have childOf := children node (by simp)
      have opened := ih fun other member => children other (List.mem_cons_of_mem _ member)
      unfold openCells
      by_cases isCell : node.kind = .csv
      · rw [if_pos isCell]
        refine (openRequired?_meets sound childOf.stored
          fun _ => by simp [isCell, NodeKind.requiredSlots]).bind fun content? reading => ?_
        cases content? with
        | none => exact opened
        | some content =>
            refine opened.bind fun contents held => ?_
            intro other member
            rcases List.mem_cons.mp member with rfl | later
            · exact .cell childOf isCell (reading.inSlot rfl)
            · exact held other later
      · rw [if_neg isCell]
        refine opened.bind fun contents held => ?_
        intro other member
        rcases List.mem_cons.mp member with rfl | later
        · exact .plain childOf isCell
        · exact held other later

theorem arrayContents_meets (sound : ¬fault → graph.ShapeCorrect) {wrapper : Node}
    (isArray : ¬fault → wrapper.kind ∈ [NodeKind.arrayWrapper]) :
    Meets fault
      (fun contents => wrapper.kind = .arrayWrapper ∧
        ∀ node ∈ contents, graph.ElementOf wrapper.id node)
      (graph.arrayContents wrapper) := by
  refine (checkKind_meets isArray).bind fun _ kind => ?_
  refine (childNodes_meets sound wrapper.id).bind fun nodes children => ?_
  refine (openCells_meets sound children).weaken fun contents held => ?_
  exact ⟨by simpa using kind, held⟩

theorem contentsAt_meets (sound : ¬fault → graph.ShapeCorrect) {owner : Node} {slot : Nat}
    (stored : graph.Stored owner) (required : ¬fault → slot ∈ owner.kind.requiredSlots)
    (restricted : ¬fault → owner.kind.slotKinds slot = some [.arrayWrapper]) :
    Meets fault (fun contents => ∀ node ∈ contents, graph.ElementAt owner.id slot node)
      (graph.contentsAt owner slot) := by
  refine (restrictedRequired?_meets sound stored required restricted).bind fun wrapper? reading => ?_
  cases wrapper? with
  | none =>
      intro node member
      simp at member
  | some wrapper =>
      refine (arrayContents_meets sound fun _ => reading.kind rfl rfl).weaken ?_
      rintro contents ⟨kind, held⟩ node member
      exact ⟨wrapper, reading.inSlot rfl, kind, held node member⟩

structure PairReading (graph : Graph) (pair : KeyValuePair) : Prop where
  read : graph.keyValuePair? pair.pair = .ok (some pair)
  kind : pair.pair.kind ∈ NodeKind.pairKinds
  value : ∀ {value}, pair.value? = some value → graph.InSlot pair.pair.id Slot.pairValue value

theorem pairKinds_requiredSlots {kind : NodeKind} (isPair : kind ∈ NodeKind.pairKinds) :
    kind.requiredSlots = [Slot.pairKey, Slot.pairValue] ∧
      kind.slotKinds Slot.pairKey = some [.identifier, .generalizedIdentifier] := by
  simp only [NodeKind.pairKinds, List.mem_cons, List.not_mem_nil, or_false] at isPair
  rcases isPair with rfl | rfl | rfl <;> exact ⟨rfl, rfl⟩

theorem keyValuePair?_meets (sound : ¬fault → graph.ShapeCorrect) {node : Node}
    (stored : graph.Stored node) (isPair : ¬fault → node.kind ∈ NodeKind.pairKinds) :
    Meets fault (fun pair? => ∀ pair, pair? = some pair → pair.pair = node ∧ graph.PairReading pair)
      (graph.keyValuePair? node) := by
  have content : Meets fault
      (fun pair? => ∀ pair, pair? = some pair → pair.pair = node ∧
        node.kind ∈ NodeKind.pairKinds ∧
        ∀ value, pair.value? = some value → graph.InSlot node.id Slot.pairValue value)
      (graph.keyValuePair? node) := by
    refine (checkKind_meets isPair).bind fun _ kind => ?_
    obtain ⟨required, restricted⟩ := pairKinds_requiredSlots kind
    refine (restrictedRequired?_meets sound stored (fun _ => by simp [required])
      fun _ => restricted).bind fun keyNode? reading => ?_
    cases keyNode? with
    | none =>
        intro pair impossible
        simp at impossible
    | some keyNode =>
        cases spelled : keyNode.identifier? with
        | none =>
            simp only [spelled]
            cases keyNode with
            | context key =>
                intro pair impossible
                simp at impossible
            | ast key =>
                refine ⟨?_, trivial⟩
                by_contra noFault
                simpa [spelled] using (sound noFault).keys stored kind (reading.inSlot rfl)
        | some key =>
            simp only [spelled]
            refine (openChild?_meets sound node.id Slot.pairValue).bind fun value? held => ?_
            intro pair same
            obtain rfl := Option.some.inj same
            exact ⟨rfl, kind, fun value found => held.inSlot found⟩
  cases read : graph.keyValuePair? node with
  | error failure => exact content.defect read
  | ok pair? =>
      intro pair same
      subst same
      obtain ⟨rfl, kind, value⟩ := content.value read pair rfl
      exact ⟨rfl, read, kind, fun found => value _ found⟩

theorem keyValuePairs_meets (sound : ¬fault → graph.ShapeCorrect) {nodes : List Node}
    (stored : ∀ node ∈ nodes, graph.Stored node)
    (arePairs : ¬fault → ∀ node ∈ nodes, node.kind ∈ NodeKind.pairKinds) :
    Meets fault (fun pairs => ∀ pair ∈ pairs, pair.pair ∈ nodes ∧ graph.PairReading pair)
      (graph.keyValuePairs nodes) := by
  induction nodes with
  | nil =>
      intro pair member
      simp at member
  | cons node rest ih =>
      have others := ih (fun other member => stored other (List.mem_cons_of_mem _ member))
        (fun noFault other member => arePairs noFault other (List.mem_cons_of_mem _ member))
      unfold keyValuePairs
      refine (keyValuePair?_meets sound (stored node (by simp))
        fun noFault => arePairs noFault node (by simp)).bind fun pair? first => ?_
      cases pair? with
      | none =>
          refine others.weaken fun pairs facts pair member => ?_
          exact ⟨List.mem_cons_of_mem _ (facts pair member).1, (facts pair member).2⟩
      | some pair =>
          refine others.bind fun pairs facts => ?_
          intro other member
          rcases List.mem_cons.mp member with rfl | later
          · obtain ⟨same, reading⟩ := first other rfl
            exact ⟨by simp [same], reading⟩
          · exact ⟨List.mem_cons_of_mem _ (facts other later).1, (facts other later).2⟩

theorem pairsAt_meets (sound : ¬fault → graph.ShapeCorrect) {owner : Node} {slot : Nat}
    (stored : graph.Stored owner) (required : slot ∈ owner.kind.requiredSlots)
    (restricted : owner.kind.slotKinds slot = some [.arrayWrapper])
    (elements : owner.kind.elementKinds slot = some NodeKind.pairKinds) :
    Meets fault
      (fun pairs => ∀ pair ∈ pairs, graph.ElementAt owner.id slot pair.pair ∧ graph.PairReading pair)
      (do graph.keyValuePairs (← graph.contentsAt owner slot)) := by
  refine (contentsAt_meets sound stored (fun _ => required) fun _ => restricted).bind
    fun contents held => ?_
  refine (keyValuePairs_meets sound (fun node member => (held node member).stored) ?_).weaken ?_
  · intro noFault node member
    exact (sound noFault).elements stored (held node member) elements
  · intro pairs facts pair member
    exact ⟨held pair.pair (facts pair member).1, (facts pair member).2⟩

theorem recordPairs_meets (sound : ¬fault → graph.ShapeCorrect) {record : Node}
    (stored : graph.Stored record)
    (isRecord : record.kind = .recordExpression ∨ record.kind = .recordLiteral) :
    Meets fault
      (fun pairs => ∀ pair ∈ pairs,
        graph.ElementAt record.id Slot.wrappedContent pair.pair ∧ graph.PairReading pair)
      (graph.recordPairs record) := by
  refine pairsAt_meets sound stored ?_ ?_ ?_ <;>
    rcases isRecord with kind | kind <;>
    simp [kind, NodeKind.requiredSlots, NodeKind.slotKinds, NodeKind.elementKinds]

theorem letPairs_meets (sound : ¬fault → graph.ShapeCorrect) {letNode : Node}
    (stored : graph.Stored letNode) (isLet : letNode.kind = .letExpression) :
    Meets fault
      (fun pairs => ∀ pair ∈ pairs,
        graph.ElementAt letNode.id Slot.letBindings pair.pair ∧ graph.PairReading pair)
      (graph.letPairs letNode) := by
  refine pairsAt_meets sound stored ?_ ?_ ?_ <;>
    simp [isLet, NodeKind.requiredSlots, NodeKind.slotKinds, NodeKind.elementKinds]

theorem memberPairs_meets (sound : ¬fault → graph.ShapeCorrect) {members : List Node}
    (stored : ∀ member ∈ members, graph.Stored member)
    (areMembers : ¬fault → ∀ member ∈ members, member.kind ∈ [NodeKind.sectionMember]) :
    Meets fault
      (fun pairs => ∀ pair ∈ pairs, pair.kind = .identifierPairedExpression ∧
        ∃ member ∈ members, member.kind = .sectionMember ∧
          graph.InSlot member.id Slot.sectionMemberPair pair)
      (graph.memberPairs members) := by
  induction members with
  | nil =>
      intro pair member
      simp at member
  | cons member rest ih =>
      have others := ih (fun other inRest => stored other (List.mem_cons_of_mem _ inRest))
        (fun noFault other inRest => areMembers noFault other (List.mem_cons_of_mem _ inRest))
      unfold memberPairs
      refine (checkKind_meets fun noFault => areMembers noFault member (by simp)).bind
        fun _ listed => ?_
      have kind : member.kind = .sectionMember := by simpa using listed
      refine (restrictedRequired?_meets sound (stored member (by simp))
        (fun _ => by simp [kind, NodeKind.requiredSlots]) fun _ => by rw [kind]; rfl).bind
        fun pair? reading => ?_
      cases pair? with
      | none =>
          refine others.weaken fun pairs facts pair inPairs => ?_
          obtain ⟨pairKind, other, inRest, otherFacts⟩ := facts pair inPairs
          exact ⟨pairKind, other, List.mem_cons_of_mem _ inRest, otherFacts⟩
      | some first =>
          refine others.bind fun pairs facts => ?_
          intro pair inPairs
          rcases List.mem_cons.mp inPairs with rfl | later
          · exact ⟨by simpa using reading.kind rfl rfl, member, by simp, kind, reading.inSlot rfl⟩
          · obtain ⟨pairKind, other, inRest, otherFacts⟩ := facts pair later
            exact ⟨pairKind, other, List.mem_cons_of_mem _ inRest, otherFacts⟩

theorem sectionPairs_meets (sound : ¬fault → graph.ShapeCorrect) {sectionNode : Node}
    (stored : graph.Stored sectionNode) (isSection : sectionNode.kind = .section) :
    Meets fault
      (fun pairs => ∀ pair ∈ pairs, graph.PairReading pair ∧
        ∃ member, graph.ElementAt sectionNode.id Slot.sectionMembers member ∧
          member.kind = .sectionMember ∧ graph.InSlot member.id Slot.sectionMemberPair pair.pair)
      (graph.sectionPairs sectionNode) := by
  refine (contentsAt_meets sound stored (fun _ => by simp [isSection, NodeKind.requiredSlots])
    fun _ => by rw [isSection]; rfl).bind fun members held => ?_
  refine (memberPairs_meets sound (fun member inMembers => (held member inMembers).stored) ?_).bind
    fun nodes facts => ?_
  · intro noFault member inMembers
    exact (sound noFault).elements stored (held member inMembers) (by rw [isSection]; rfl)
  · refine (keyValuePairs_meets sound ?_ ?_).weaken ?_
    · intro node inNodes
      obtain ⟨_, _, _, _, inSlot⟩ := facts node inNodes
      exact inSlot.childOf.stored
    · intro _ node inNodes
      simp [(facts node inNodes).1, NodeKind.pairKinds]
    · intro pairs readings pair inPairs
      obtain ⟨inNodes, reading⟩ := readings pair inPairs
      obtain ⟨_, member, inMembers, memberKind, inSlot⟩ := facts pair.pair inNodes
      exact ⟨reading, member, held member inMembers, memberKind, inSlot⟩

end FormulaInspection.Graph
