import FormulaInspection.Proofs.Bookkeeping

/-!
Questions that are not answered at once. Where the type of a node is neither known nor cut off, the
rule of the node is run inside of it, and its answer is the type.
-/

namespace FormulaInspection.Evaluator

variable {evaluator : Evaluator}

theorem inferNode_known {node : Node} {state : Progress} {cancellation : Cancellation} {ty : Ty}
    (go : state.cancellation.poll = .ok cancellation)
    (seen : evaluator.knownType? state node.id = some ty) :
    evaluator.inferNode node state = (.ok ty, state.polled cancellation) :=
  inferWithin_known go seen

theorem run_inferNode {α : Type} (demand : Demand α) (state : Progress) :
    evaluator.run (evaluator.inferWithin (evaluator.maxDepth - state.depth)) demand state =
      evaluator.run evaluator.inferNode demand state := by
  induction demand generalizing state with
  | answer value => rfl
  | fail failure => rfl
  | typeOf node next ih =>
      have continues := evaluator.inferWithin_continues (evaluator.maxDepth - state.depth) node state
      rw [run_typeOf, run_typeOf]
      unfold inferNode
      cases outcome : evaluator.inferWithin (evaluator.maxDepth - state.depth) node state with
      | mk result after =>
          rw [outcome] at continues
          cases result with
          | error failure => rfl
          | ok ty =>
              have onward := ih ty after
              rw [continues.depth] at onward
              exact onward
  | binding id name next ih =>
      have continues := evaluator.lookUp_continues id name state
      rw [run_binding, run_binding]
      cases outcome : evaluator.lookUp id name state with
      | mk result after =>
          rw [outcome] at continues
          cases result with
          | error failure => rfl
          | ok item? =>
              have onward := ih item? after
              rw [continues.depth] at onward
              exact onward
  | poll next ih =>
      unfold run
      cases state.cancellation.poll with
      | error failure => rfl
      | ok cancellation => exact ih { state with cancellation }

/-- The type of the node is neither known nor cut off, so that its rule is run, from `inside` on. -/
structure Enters (evaluator : Evaluator) (node : Node) (state inside : Progress) : Prop where
  unknown : evaluator.knownType? state node.id = none
  fresh : state.inProgress[node.id]? = none
  room : state.depth < evaluator.maxDepth
  begun : ∃ cancellation, state.cancellation.poll = .ok cancellation ∧
    inside = (state.polled cancellation).enter node.id

theorem Enters.inferNode {node : Node} {state inside inner : Progress} {ty : Ty}
    (enters : evaluator.Enters node state inside)
    (ran : evaluator.run evaluator.inferNode (evaluator.graph.typingRule node) inside =
      (.ok ty, inner)) :
    ∃ after, evaluator.inferNode node state = (.ok ty, after) := by
  obtain ⟨cancellation, go, rfl⟩ := enters.begun
  have room := enters.room
  obtain ⟨levels, left⟩ : ∃ levels, evaluator.maxDepth - state.depth = levels + 1 :=
    Nat.exists_eq_add_one.mpr (by omega)
  have further : evaluator.maxDepth - ((state.polled cancellation).enter node.id).depth = levels := by
    simp only [Progress.enter, Progress.polled]
    omega
  rw [← run_inferNode, further] at ran
  have entered := inferWithin_entered go enters.unknown enters.fresh ran
  rw [Progress.leave_ok] at entered
  unfold Evaluator.inferNode
  rw [left, entered]
  exact ⟨_, rfl⟩

section

variable {node : Node} {slot : Nat} {before after : Progress} {ty : Ty}

def TypesChild (evaluator : Evaluator) (node : Node) (slot : Nat) (before : Progress) (ty : Ty)
    (after : Progress) : Prop :=
  evaluator.run evaluator.inferNode (evaluator.graph.childType node slot) before = (.ok ty, after)

theorem typesChild_written {child : Node}
    (written : evaluator.graph.requiredChild? node slot = .ok (some child))
    (inferred : evaluator.inferNode child before = (.ok ty, after)) :
    evaluator.TypesChild node slot before ty after := by
  unfold TypesChild Graph.childType
  rw [written]
  change evaluator.run _ (.typeOf child .answer) before = _
  rw [run_typeOf, inferred]
  rfl

theorem TypesChild.run_bind {α : Type}
    (typed : evaluator.TypesChild node slot before ty after) (next : Ty → Demand α) :
    evaluator.run evaluator.inferNode (evaluator.graph.childType node slot >>= next) before =
      evaluator.run evaluator.inferNode (next ty) after := by
  rw [Evaluator.run_bind, typed]
  rfl

end

theorem inferType_of_inferNode {graph : Graph} {id : NodeId} {node : Node} {maxDepth : Nat}
    {cache : InspectionCache} {cancellation : Cancellation} {ty : Ty} {final : Progress}
    (found : graph.node? id = some node)
    (inferred : inferNode ⟨graph, maxDepth, cache.types, cache.scopes⟩ node (.initial cancellation) =
      (.ok ty, final)) :
    (inferType graph id maxDepth cache cancellation).answer = .ok ty := by
  rw [inferType_answer (Graph.node_eq_ok.mpr found)]
  exact congrArg Prod.fst inferred

end FormulaInspection.Evaluator
