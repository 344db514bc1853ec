import FormulaInspection.Proofs.Bindings
import FormulaInspection.Proofs.Depth

/-!
Inference that remembers nothing. The type of a node is what its rule makes of the types of others,
and a node that an evaluation is inside of is `any`. So the type depends on the graph and on the
nodes the evaluation is inside of, and on nothing else.
-/

namespace FormulaInspection

structure Oracle where
  typeOf : Node → Except InspectionError Ty
  binding : NodeId → String → Except InspectionError (Option ScopeItem)

namespace Demand

variable {α : Type}

def settle (oracle : Oracle) : Demand α → Except InspectionError α
  | .answer value => .ok value
  | .fail failure => .error failure
  | .typeOf node next =>
    match oracle.typeOf node with
    | .ok ty => (next ty).settle oracle
    | .error failure => .error failure
  | .binding node name next =>
    match oracle.binding node name with
    | .ok item? => (next item?).settle oracle
    | .error failure => .error failure
  | .poll next => next.settle oracle

def asked (oracle : Oracle) : Demand α → List Node
  | .answer _ | .fail _ => []
  | .typeOf node next =>
    match oracle.typeOf node with
    | .ok ty => node :: (next ty).asked oracle
    | .error _ => [node]
  | .binding node name next =>
    match oracle.binding node name with
    | .ok item? => (next item?).asked oracle
    | .error _ => []
  | .poll next => next.asked oracle

theorem mem_asked_typeOf {oracle : Oracle} {node : Node} {next : Ty → Demand α} :
    node ∈ (Demand.typeOf node next).asked oracle := by
  unfold asked
  split <;> simp

theorem mem_asked_next {oracle : Oracle} {node other : Node} {next : Ty → Demand α} {ty : Ty}
    (typed : oracle.typeOf node = .ok ty) (member : other ∈ (next ty).asked oracle) :
    other ∈ (Demand.typeOf node next).asked oracle := by
  simp only [asked, typed]
  exact List.mem_cons_of_mem _ member

theorem settle_congr {first second : Oracle} {demand : Demand α}
    (sameBindings : first.binding = second.binding)
    (sameTypes : ∀ node ∈ demand.asked first, node ∈ demand.asked second →
      first.typeOf node = second.typeOf node) :
    demand.settle first = demand.settle second := by
  induction demand with
  | answer value => rfl
  | fail failure => rfl
  | typeOf node next ih =>
      have agree := sameTypes node mem_asked_typeOf mem_asked_typeOf
      unfold settle
      cases typed : second.typeOf node with
      | error failure => rw [agree, typed]
      | ok ty =>
          rw [typed] at agree
          simp only [agree]
          exact ih ty fun other inFirst inSecond =>
            sameTypes other (mem_asked_next agree inFirst) (mem_asked_next typed inSecond)
  | binding node name next ih =>
      unfold settle
      simp only [asked, sameBindings] at sameTypes ⊢
      cases bound : second.binding node name with
      | error failure => rfl
      | ok item? =>
          simp only [bound] at sameTypes
          exact ih item? sameTypes
  | poll next ih => exact ih sameTypes

theorem Keeps.asked {contract : Contract} {post : α → Prop} {oracle : Oracle} {demand : Demand α}
    (keeps : demand.Keeps contract post)
    (tells : ∀ id name item?, oracle.binding id name = .ok item? →
      contract.tellsBinding id name item?)
    {node : Node} (member : node ∈ demand.asked oracle) : contract.asksType node := by
  induction demand with
  | answer value => simp [Demand.asked] at member
  | fail failure => simp [Demand.asked] at member
  | typeOf first next ih =>
      unfold Demand.asked at member
      split at member
      · rename_i ty typed
        rcases List.mem_cons.mp member with rfl | later
        · exact keeps.1
        · exact ih ty (keeps.2 ty) later
      · obtain rfl := List.mem_singleton.mp member
        exact keeps.1
  | binding id name next ih =>
      unfold Demand.asked at member
      split at member
      · rename_i item? bound
        exact ih item? (keeps.2 item? (tells id name item? bound)) member
      · simp at member
  | poll next ih => exact ih keeps member

end Demand

namespace Graph

variable {graph : Graph}

def typeWithin (graph : Graph) : Nat → List NodeId → Node → Except InspectionError Ty
  | levels, stack, node =>
    if node.id ∈ stack then .ok .any
    else
      match levels with
      | 0 => .error (.depthExceeded node.id graph.size)
      | levels + 1 =>
        (graph.typingRule node).settle ⟨graph.typeWithin levels (node.id :: stack), graph.bindingAt⟩

def typeInside (graph : Graph) (stack : List NodeId) (node : Node) : Except InspectionError Ty :=
  graph.typeWithin (graph.size - stack.length) stack node

def oracle (graph : Graph) (stack : List NodeId) : Oracle :=
  ⟨graph.typeInside stack, graph.bindingAt⟩

def askedBy (graph : Graph) (stack : List NodeId) (node : Node) : List Node :=
  (graph.typingRule node).asked (graph.oracle (node.id :: stack))

theorem typeInside_cut {stack : List NodeId} {node : Node} (inside : node.id ∈ stack) :
    graph.typeInside stack node = .ok .any := by
  unfold typeInside typeWithin
  simp [inside]

theorem typeInside_entered {stack : List NodeId} {node : Node} (fresh : node.id ∉ stack)
    (room : stack.length < graph.size) :
    graph.typeInside stack node =
      (graph.typingRule node).settle (graph.oracle (node.id :: stack)) := by
  have levels : graph.size - stack.length = (graph.size - (stack.length + 1)) + 1 := by omega
  unfold typeInside
  rw [levels, typeWithin, if_neg fresh]
  rfl

/-- An evaluation can come to the node inside the nodes of `stack`: it begins there, or the node
that it entered last asks for it. -/
inductive Reached (graph : Graph) : List NodeId → Node → Prop
  | start {node : Node} : graph.Stored node → Reached graph [] node
  | asked {stack : List NodeId} {asker node : Node} : Reached graph stack asker →
      asker.id ∉ stack → node ∈ graph.askedBy stack asker → Reached graph (asker.id :: stack) node

def Asks (graph : Graph) (asker node : Node) : Prop :=
  ∃ stack, graph.Reached stack asker ∧ asker.id ∉ stack ∧ node ∈ graph.askedBy stack asker

namespace Reached

variable {stack : List NodeId} {node : Node}

theorem stored (reached : graph.Reached stack node) : graph.Stored node := by
  induction reached with
  | start isStored => exact isStored
  | asked _ _ member askerStored =>
      have keeps := @typingRule_keeps graph True (fun noFault => absurd trivial noFault) _ askerStored
      exact keeps.asked (fun _ _ _ _ noFault => absurd trivial noFault) member

theorem unique (reached : graph.Reached stack node) : stack.Nodup := by
  induction reached with
  | start _ => exact List.nodup_nil
  | asked _ fresh _ ih => exact List.nodup_cons.mpr ⟨fresh, ih⟩

theorem borne (reached : graph.Reached stack node) : ∀ id ∈ stack, graph.Borne id := by
  induction reached with
  | start _ => simp
  | asked earlier _ _ ih =>
      intro id member
      rcases List.mem_cons.mp member with rfl | inside
      · exact ⟨_, earlier.stored, rfl⟩
      · exact ih id inside

theorem room (reached : graph.Reached stack node) (fresh : node.id ∉ stack) :
    stack.length < graph.size := by
  have bound := length_le_size_of_borne (List.nodup_cons.mpr ⟨fresh, reached.unique⟩)
    (by
      intro id member
      rcases List.mem_cons.mp member with rfl | inside
      · exact ⟨node, reached.stored, rfl⟩
      · exact reached.borne id inside)
  simp only [List.length_cons] at bound
  omega

theorem asks (tree : graph.TreeShaped) (reached : graph.Reached stack node) {high : Node}
    (stored : graph.Stored high) (inside : high.id ∈ stack) :
    Relation.TransGen graph.Asks high node := by
  induction reached with
  | start _ => simp at inside
  | @asked rest asker next earlier fresh member ih =>
      have last : graph.Asks asker next := ⟨rest, earlier, fresh, member⟩
      rcases List.mem_cons.mp inside with same | further
      · obtain rfl := tree.stored_eq stored earlier.stored same
        exact .single last
      · exact (ih further).tail last

end Reached

theorem Asks.stored {asker node : Node} (asks : graph.Asks asker node) : graph.Stored node := by
  obtain ⟨stack, reached, fresh, member⟩ := asks
  exact (Reached.asked reached fresh member).stored

theorem stored_of_asks {node low : Node} (stored : graph.Stored node)
    (path : Relation.ReflTransGen graph.Asks node low) : graph.Stored low := by
  cases path with
  | refl => exact stored
  | tail _ last => exact last.stored

/-- The type of a node depends on those nodes alone that an evaluation comes to from there. -/
theorem typeInside_congr {levels : Nat} {stack other : List NodeId} {node : Node}
    (reached : graph.Reached stack node) (otherReached : graph.Reached other node)
    (same : ∀ low, Relation.ReflTransGen graph.Asks node low → (low.id ∈ stack ↔ low.id ∈ other))
    (enough : graph.size ≤ levels + stack.length) :
    graph.typeInside stack node = graph.typeInside other node := by
  -- Both evaluations enter the same nodes, so the two stacks keep agreeing on what can be reached.
  induction levels generalizing stack other node with
  | zero =>
      by_cases inside : node.id ∈ stack
      · rw [typeInside_cut inside, typeInside_cut ((same node .refl).mp inside)]
      · have room := reached.room inside
        omega
  | succ levels ih =>
      by_cases inside : node.id ∈ stack
      · rw [typeInside_cut inside, typeInside_cut ((same node .refl).mp inside)]
      · have otherFresh : node.id ∉ other := fun member => inside ((same node .refl).mpr member)
        rw [typeInside_entered inside (reached.room inside),
          typeInside_entered otherFresh (otherReached.room otherFresh)]
        refine Demand.settle_congr rfl fun next asked otherAsked => ?_
        refine ih (.asked reached inside asked) (.asked otherReached otherFresh otherAsked) ?_
          (by simp only [List.length_cons]; omega)
        intro low below
        have onward : graph.Asks node next := ⟨stack, reached, inside, asked⟩
        simp only [List.mem_cons, same low (.head onward below)]

end Graph

end FormulaInspection
