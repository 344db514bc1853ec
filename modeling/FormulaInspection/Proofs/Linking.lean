import FormulaInspection.Graph.Builder
import Mathlib.Data.List.Induction
import Mathlib.Data.List.Nodup

/-!
What storing, slotting and linking nodes do to the tables of a graph. The children of a node stay in
the order of their slots, and children that share a slot stay in the order in which they came.
-/

namespace FormulaInspection

def Node.withSlot : Node → Nat → Node
  | .ast node, slot => .ast { node with slot := some slot }
  | .context node, slot => .context { node with slot := some slot }

@[simp] theorem Node.slot_withSlot (node : Node) (slot : Nat) :
    (node.withSlot slot).slot = some slot := by
  cases node <;> rfl

namespace Graph

variable {graph : Graph} {parent child id : NodeId} {slot : Nat}

theorem node?_setSlot (graph : Graph) (child : NodeId) (slot : Nat) (id : NodeId) :
    (graph.setSlot child slot).node? id =
      if child = id then (graph.node? child).map (·.withSlot slot) else graph.node? id := by
  unfold setSlot
  cases complete : graph.astNodes[child]? with
  | some node =>
      by_cases same : child = id
      · subst id
        simp [node?, complete, Node.withSlot]
      · simp [node?, Std.ExtTreeMap.getElem?_insert, same]
  | none =>
      cases begun : graph.contextNodes[child]? with
      | some node =>
          by_cases same : child = id
          · subst id
            simp [node?, complete, begun, Node.withSlot]
          · simp [node?, Std.ExtTreeMap.getElem?_insert, same]
      | none =>
          by_cases same : child = id
          · subst id
            simp [node?, complete, begun]
          · simp [same]

theorem mem_astNodes_setSlot : id ∈ (graph.setSlot child slot).astNodes ↔ id ∈ graph.astNodes := by
  unfold setSlot
  cases complete : graph.astNodes[child]? with
  | some node =>
      have stored : child ∈ graph.astNodes := by
        simp [Std.ExtTreeMap.mem_iff_isSome_getElem?, complete]
      simp only [Std.ExtTreeMap.mem_insert, Std.LawfulEqCmp.compare_eq_iff_eq]
      constructor
      · rintro (rfl | member)
        · exact stored
        · exact member
      · exact .inr
  | none =>
      cases graph.contextNodes[child]? with
      | some node => rfl
      | none => rfl

theorem mem_contextNodes_setSlot :
    id ∈ (graph.setSlot child slot).contextNodes ↔ id ∈ graph.contextNodes := by
  unfold setSlot
  cases graph.astNodes[child]? with
  | some node => rfl
  | none =>
      cases begun : graph.contextNodes[child]? with
      | some node =>
          have stored : child ∈ graph.contextNodes := by
            simp [Std.ExtTreeMap.mem_iff_isSome_getElem?, begun]
          simp only [Std.ExtTreeMap.mem_insert, Std.LawfulEqCmp.compare_eq_iff_eq]
          constructor
          · rintro (rfl | member)
            · exact stored
            · exact member
          · exact .inr
      | none => rfl

theorem setSlot_links : (graph.setSlot child slot).parents = graph.parents ∧
    (graph.setSlot child slot).children = graph.children ∧
    (graph.setSlot child slot).leaves = graph.leaves := by
  unfold setSlot
  split
  · simp
  · split <;> simp

theorem node?_link : (graph.link parent child).node? id = graph.node? id :=
  rfl

theorem parentId?_place : ((graph.setSlot child slot).link parent child).parentId? id =
    if child = id then some parent else graph.parentId? id := by
  simp [link, parentId?, setSlot_links.1, Std.ExtTreeMap.getElem?_insert]

theorem childIds_place : ((graph.setSlot child slot).link parent child).childIds id =
    if parent = id then (graph.setSlot child slot).insertChild child (graph.childIds parent)
    else graph.childIds id := by
  by_cases same : parent = id
  · simp [link, childIds, setSlot_links.2.1, same]
  · simp [link, childIds, setSlot_links.2.1, Std.ExtTreeMap.getElem?_insert, same]

def InOrder (graph : Graph) (siblings : List NodeId) : Prop :=
  siblings.Pairwise fun left right => slotAfter (graph.slotOf left) (graph.slotOf right) = false

theorem slotAfter_trans {left middle right : Option Nat} (first : slotAfter left middle = false)
    (second : slotAfter middle right = false) : slotAfter left right = false := by
  cases left with
  | none => rfl
  | some left =>
      cases middle with
      | none => simp [slotAfter] at first
      | some middle =>
          cases right with
          | none => simp [slotAfter] at second
          | some right =>
              simp only [slotAfter, decide_eq_false_iff_not] at *
              omega

theorem slotAfter_asymm {left right : Option Nat} (greater : slotAfter left right = true) :
    slotAfter right left = false := by
  cases left with
  | none => simp [slotAfter] at greater
  | some left =>
      cases right with
      | none => rfl
      | some right =>
          simp only [slotAfter, decide_eq_true_eq, decide_eq_false_iff_not] at *
          omega

theorem insertChild_perm (graph : Graph) (child : NodeId) (siblings : List NodeId) :
    (graph.insertChild child siblings).Perm (child :: siblings) := by
  induction siblings with
  | nil => exact .refl _
  | cons sibling rest ih =>
      simp only [insertChild]
      split
      · exact .refl _
      · exact (ih.cons sibling).trans (.swap child sibling rest)

theorem insertChild_inOrder {siblings : List NodeId} (ordered : graph.InOrder siblings) :
    graph.InOrder (graph.insertChild child siblings) := by
  induction siblings with
  | nil => exact List.pairwise_singleton _ _
  | cons sibling rest ih =>
      obtain ⟨sorted, restOrdered⟩ := List.pairwise_cons.mp ordered
      simp only [insertChild]
      split
      · rename_i greater
        have before := slotAfter_asymm greater
        refine List.pairwise_cons.mpr ⟨?_, ordered⟩
        intro other member
        rcases List.mem_cons.mp member with rfl | later
        · exact before
        · exact slotAfter_trans before (sorted other later)
      · rename_i notGreater
        refine List.pairwise_cons.mpr ⟨?_, ih restOrdered⟩
        intro other member
        rcases List.mem_cons.mp ((insertChild_perm graph child rest).mem_iff.mp member) with
          rfl | later
        · simpa using notGreater
        · exact sorted other later

theorem InOrder.congr {other : Graph} {siblings : List NodeId} (ordered : graph.InOrder siblings)
    (same : ∀ id ∈ siblings, other.slotOf id = graph.slotOf id) : other.InOrder siblings := by
  refine List.Pairwise.imp_of_mem ?_ ordered
  intro left right leftMember rightMember notAfter
  rw [same left leftMember, same right rightMember]
  exact notAfter

theorem insertChild_congr {other : Graph} {siblings : List NodeId}
    (same : ∀ id, other.slotOf id = graph.slotOf id) :
    other.insertChild child siblings = graph.insertChild child siblings := by
  induction siblings with
  | nil => rfl
  | cons sibling rest ih => simp only [insertChild, same, ih]

theorem insertChild_last {siblings : List NodeId}
    (notAfter : ∀ sibling ∈ siblings,
      slotAfter (graph.slotOf sibling) (graph.slotOf child) = false) :
    graph.insertChild child siblings = siblings ++ [child] := by
  induction siblings with
  | nil => rfl
  | cons sibling rest ih =>
      have first := notAfter sibling (by simp)
      have others := ih fun other member => notAfter other (by simp [member])
      simp [insertChild, first, others]

theorem insertChild_filter {siblings : List NodeId} (ordered : graph.InOrder siblings)
    (slot : Option Nat) :
    (graph.insertChild child siblings).filter (graph.slotOf · = slot) =
      siblings.filter (graph.slotOf · = slot) ++ [child].filter (graph.slotOf · = slot) := by
  induction siblings with
  | nil => rfl
  | cons sibling rest ih =>
      obtain ⟨sorted, restOrdered⟩ := List.pairwise_cons.mp ordered
      simp only [insertChild]
      split
      · rename_i greater
        by_cases shares : graph.slotOf child = slot
        · -- Everything from `sibling` on has a greater slot, so nothing there shares this one.
          have beyond : ∀ other ∈ sibling :: rest, graph.slotOf other ≠ slot := by
            intro other member same
            have notAfter : slotAfter (graph.slotOf sibling) (graph.slotOf other) = false := by
              rcases List.mem_cons.mp member with rfl | later
              · cases graph.slotOf other <;> simp [slotAfter]
              · exact sorted other later
            rw [same, ← shares, greater] at notAfter
            cases notAfter
          have none : (sibling :: rest).filter (graph.slotOf · = slot) = [] := by
            simpa using beyond
          rw [none, List.filter_cons, none]
          simp [shares]
        · simp [List.filter_cons, shares]
      · by_cases shares : graph.slotOf sibling = slot
        · simp [List.filter_cons_of_pos, shares, ih restOrdered]
        · simp [List.filter_cons_of_neg, shares, ih restOrdered]

end Graph

namespace Builder

open FormulaInspection.Graph

variable {graph : Graph} {parent id : NodeId} {children : List (Nat × NodeId)}

theorem attach_concat (graph : Graph) (parent : NodeId) (children : List (Nat × NodeId))
    (place : Nat × NodeId) : attach graph parent (children ++ [place]) =
      ((attach graph parent children).setSlot place.2 place.1).link parent place.2 := by
  simp [attach]

theorem parentId?_attach : (attach graph parent children).parentId? id =
    if id ∈ children.map (·.2) then some parent else graph.parentId? id := by
  induction children using List.reverseRecOn with
  | nil => simp [attach]
  | append_singleton rest place ih =>
      rw [attach_concat, parentId?_place, ih]
      by_cases same : place.2 = id
      · simp [same]
      · have members : id ∈ (rest ++ [place]).map (·.2) ↔ id ∈ rest.map (·.2) := by
          simp [Ne.symm same]
        simp only [members, if_neg same]

theorem childIds_attach_of_ne (other : id ≠ parent) :
    (attach graph parent children).childIds id = graph.childIds id := by
  induction children using List.reverseRecOn with
  | nil => rfl
  | append_singleton rest place ih =>
      rw [attach_concat, childIds_place, if_neg (Ne.symm other), ih]

theorem leaves_attach : (attach graph parent children).leaves = graph.leaves := by
  induction children using List.reverseRecOn with
  | nil => rfl
  | append_singleton rest place ih =>
      rw [attach_concat, link]
      exact setSlot_links.2.2.trans ih

theorem mem_astNodes_attach :
    id ∈ (attach graph parent children).astNodes ↔ id ∈ graph.astNodes := by
  induction children using List.reverseRecOn with
  | nil => rfl
  | append_singleton rest place ih =>
      rw [attach_concat, link]
      exact mem_astNodes_setSlot.trans ih

theorem mem_contextNodes_attach :
    id ∈ (attach graph parent children).contextNodes ↔ id ∈ graph.contextNodes := by
  induction children using List.reverseRecOn with
  | nil => rfl
  | append_singleton rest place ih =>
      rw [attach_concat, link]
      exact mem_contextNodes_setSlot.trans ih

theorem node?_attach_concat (graph : Graph) (parent : NodeId) (children : List (Nat × NodeId))
    (place : Nat × NodeId) (id : NodeId) :
    (attach graph parent (children ++ [place])).node? id =
      if place.2 = id then ((attach graph parent children).node? id).map (·.withSlot place.1)
      else (attach graph parent children).node? id := by
  rw [attach_concat, node?_link, node?_setSlot]
  by_cases same : place.2 = id
  · simp [same]
  · simp [same]

theorem node?_attach_of_notMem (kept : id ∉ children.map (·.2)) :
    (attach graph parent children).node? id = graph.node? id := by
  induction children using List.reverseRecOn with
  | nil => rfl
  | append_singleton rest place ih =>
      simp only [List.map_append, List.map_cons, List.map_nil, List.mem_append,
        List.mem_singleton, not_or] at kept
      rw [node?_attach_concat, if_neg (Ne.symm kept.2), ih kept.1]

theorem node?_attach_of_mem (distinct : (children.map (·.2)).Nodup) {place : Nat × NodeId}
    (member : place ∈ children) : (attach graph parent children).node? place.2 =
      (graph.node? place.2).map (·.withSlot place.1) := by
  induction children using List.reverseRecOn with
  | nil => cases member
  | append_singleton rest last ih =>
      rw [List.map_append, List.nodup_append] at distinct
      obtain ⟨restDistinct, -, apart⟩ := distinct
      rw [node?_attach_concat]
      rcases List.mem_append.mp member with earlier | isLast
      · have notLast : place.2 ≠ last.2 :=
          apart place.2 (List.mem_map_of_mem earlier) last.2 (by simp)
        rw [if_neg (Ne.symm notLast), ih restDistinct earlier]
      · have same : place = last := by simpa using isLast
        subst same
        have kept : place.2 ∉ rest.map (·.2) := by
          intro inside
          exact apart place.2 inside place.2 (by simp) rfl
        rw [if_pos rfl, node?_attach_of_notMem kept]

theorem slotOf_attach_of_mem (distinct : (children.map (·.2)).Nodup)
    (stored : ∀ id ∈ children.map (·.2), (graph.node? id).isSome) {place : Nat × NodeId}
    (member : place ∈ children) :
    (attach graph parent children).slotOf place.2 = some place.1 := by
  have inside : place.2 ∈ children.map (·.2) := List.mem_map_of_mem member
  obtain ⟨node, found⟩ := Option.isSome_iff_exists.mp (stored _ inside)
  simp [slotOf, node?_attach_of_mem distinct member, found]

theorem childIds_attach_concat (graph : Graph) (parent : NodeId) (children : List (Nat × NodeId))
    (place : Nat × NodeId) : (attach graph parent (children ++ [place])).childIds parent =
      (attach graph parent (children ++ [place])).insertChild place.2
        ((attach graph parent children).childIds parent) := by
  rw [attach_concat, childIds_place, if_pos rfl]
  symm
  apply insertChild_congr
  intro id
  rfl

end Builder

/-- The children of a node are the given ones in the order of their slots, and those that share a
slot are in the given order. -/
structure Graph.Lists (graph : Graph) (parent : NodeId) (children : List (Nat × NodeId)) :
    Prop where
  members : (graph.childIds parent).Perm (children.map (·.2))
  ordered : graph.InOrder (graph.childIds parent)
  ties : ∀ slot, (graph.childIds parent).filter (graph.slotOf · = some slot) =
    (children.filter (·.1 = slot)).map (·.2)

theorem Graph.Lists.congr {graph other : Graph} {parent : NodeId} {children : List (Nat × NodeId)}
    (lists : graph.Lists parent children) (same : other.childIds parent = graph.childIds parent)
    (sameSlots : ∀ id ∈ graph.childIds parent, other.slotOf id = graph.slotOf id) :
    other.Lists parent children where
  members := by
    rw [same]
    exact lists.members
  ordered := by
    rw [same]
    exact lists.ordered.congr sameSlots
  ties := by
    intro slot
    rw [same, ← lists.ties slot]
    exact List.filter_congr fun id member => by rw [sameSlots id member]

namespace Builder

open FormulaInspection.Graph

variable {graph : Graph} {parent : NodeId} {children : List (Nat × NodeId)}

theorem lists_attach (childless : graph.childIds parent = [])
    (distinct : (children.map (·.2)).Nodup)
    (stored : ∀ id ∈ children.map (·.2), (graph.node? id).isSome) :
    (attach graph parent children).Lists parent children := by
  induction children using List.reverseRecOn with
  | nil =>
      have none : (attach graph parent []).childIds parent = [] := childless
      exact ⟨by simp [none], by simp [none, InOrder], by simp [none]⟩
  | append_singleton rest place ih =>
      have restDistinct : (rest.map (·.2)).Nodup := by
        rw [List.map_append] at distinct
        exact distinct.of_append_left
      have fresh : place.2 ∉ rest.map (·.2) := by
        rw [List.map_append, List.nodup_append] at distinct
        exact fun inside => distinct.2.2 place.2 inside place.2 (by simp) rfl
      have listed := ih restDistinct fun id member => stored id (by simp_all)
      have ownSlot : (attach graph parent (rest ++ [place])).slotOf place.2 = some place.1 :=
        slotOf_attach_of_mem distinct stored (by simp)
      have sameSlots : ∀ id ∈ (attach graph parent rest).childIds parent,
          (attach graph parent (rest ++ [place])).slotOf id =
            (attach graph parent rest).slotOf id := by
        intro id member
        have other : place.2 ≠ id := by
          rintro rfl
          exact fresh (listed.members.mem_iff.mp member)
        rw [slotOf, node?_attach_concat, if_neg other, ← slotOf]
      have restOrdered := listed.ordered.congr sameSlots
      have appended := childIds_attach_concat graph parent rest place
      constructor
      · rw [appended, List.map_append]
        exact (insertChild_perm _ _ _).trans
          ((listed.members.cons _).trans (List.perm_append_singleton _ _).symm)
      · rw [appended]
        exact insertChild_inOrder restOrdered
      · intro slot
        have restTies : ((attach graph parent rest).childIds parent).filter
            ((attach graph parent (rest ++ [place])).slotOf · = some slot) =
              (rest.filter (·.1 = slot)).map (·.2) := by
          rw [← listed.ties slot]
          exact List.filter_congr fun id member => by rw [sameSlots id member]
        rw [appended, insertChild_filter restOrdered, restTies, List.filter_append,
          List.map_append]
        by_cases shares : place.1 = slot
        · simp [ownSlot, shares]
        · simp [ownSlot, shares]

theorem childIds_attach_sorted (childless : graph.childIds parent = [])
    (distinct : (children.map (·.2)).Nodup)
    (stored : ∀ id ∈ children.map (·.2), (graph.node? id).isSome)
    (sorted : children.Pairwise (·.1 ≤ ·.1)) :
    (attach graph parent children).childIds parent = children.map (·.2) := by
  induction children using List.reverseRecOn with
  | nil => exact childless
  | append_singleton rest place ih =>
      obtain ⟨restSorted, -, below⟩ := List.pairwise_append.mp sorted
      have restDistinct : (rest.map (·.2)).Nodup := by
        rw [List.map_append] at distinct
        exact distinct.of_append_left
      have listed := ih restDistinct (fun id member => stored id (by simp_all)) restSorted
      have slotted := fun {earlier : Nat × NodeId} (member : earlier ∈ rest ++ [place]) =>
        @slotOf_attach_of_mem graph parent _ distinct stored earlier member
      rw [childIds_attach_concat, listed, insertChild_last, List.map_append]
      · rfl
      · intro id member
        obtain ⟨earlier, inside, rfl⟩ := List.mem_map.mp member
        rw [slotted (by simp [inside]), slotted (by simp)]
        have notGreater := below earlier inside place (by simp)
        simpa [slotAfter] using notGreater

end Builder

end FormulaInspection
