import FormulaInspection.Proofs.BoundItems
import FormulaInspection.Proofs.Depth
import FormulaInspection.Proofs.ScopeCache

/-!
Unfinished input is no error: in a graph of the right shape every node can be resolved and typed,
whatever the parser has not come to yet.
-/

namespace FormulaInspection

namespace Graph

variable {graph : Graph} {fault : Prop}

theorem TreeShaped.lexicalScope_pointsInto (tree : graph.TreeShaped) {id : NodeId}
    {above : List Node} (path : graph.RootPath id above) {entry : String × ScopeItem}
    (member : entry ∈ graph.lexicalScope id) : entry.2.PointsInto graph := by
  -- The scope that a node starts from may be that of a node far above, hence the length.
  induction length : above.length using Nat.strongRecOn generalizing id above with
  | ind count ih =>
      subst length
      have higher : ∀ {node : Node}, node ∈ above → entry ∈ graph.lexicalScope node.id →
          entry.2.PointsInto graph := by
        intro node inAbove inScope
        obtain ⟨rest, restPath, shorter⟩ := path.rest tree inAbove
        exact ih rest.length shorter restPath inScope rfl
      by_cases bound : ∃ outer node items, graph.Binds outer node items ∧ node.id = id
      · obtain ⟨outer, node, items, binds, rfl⟩ := bound
        rw [tree.lexicalScope_lexical.bound binds] at member
        rcases NameMap.mem_setAll member with old | new
        · obtain ⟨other, inAbove, same⟩ := (path.mem_iff tree).mpr (binds.inside tree)
          obtain rfl := tree.stored_eq (path.stored inAbove) binds.outerStored same
          exact higher inAbove old
        · exact binds.pointsInto tree.ownId entry new
      · cases path with
        | root noParent =>
            rw [tree.lexicalScope_lexical.root noParent] at member
            simp at member
        | step hasParent hit rest =>
            rw [tree.lexicalScope_lexical.inherited hasParent
              (fun outer node items binds same => bound ⟨outer, node, items, binds, same⟩)] at member
            rw [← tree.ownId hit] at member
            exact higher (by simp) member

end Graph

namespace Evaluator

variable {evaluator : Evaluator} {fault : Prop}

/-- What an evaluation that the host does not stop comes to: it answers, it meets a fault of the
graph, or it is nested too deep. -/
def Completes {α : Type} (fault : Prop) (outcome : Outcome α) : Prop :=
  outcome.2.cancellation = .never ∧
    match outcome.1 with
    | .ok _ => True
    | .error failure => fault ∧ failure.IsDefect ∨ ∃ id limit, failure = .depthExceeded id limit

theorem run_completes (tree : evaluator.graph.TreeShaped)
    (sound : ¬fault → evaluator.graph.ShapeCorrect)
    (given : evaluator.graph.Faithful evaluator.givenScopes)
    {infer : Node → Progress → Outcome Ty}
    (infersFaithfully : ∀ node state, evaluator.graph.Faithful state.scopes →
      evaluator.graph.Faithful (infer node state).2.scopes)
    (completes : ∀ node state, evaluator.graph.Stored node →
      evaluator.graph.Faithful state.scopes → state.cancellation = .never →
      Completes fault (infer node state))
    {α : Type} {post : α → Prop} {demand : Demand α} {state : Progress}
    (keeps : demand.Keeps (evaluator.graph.ruleContract fault) post)
    (faithful : evaluator.graph.Faithful state.scopes) (never : state.cancellation = .never) :
    Completes fault (evaluator.run infer demand state) := by
  induction demand generalizing state with
  | answer value => exact ⟨never, trivial⟩
  | fail failure => exact ⟨never, Or.inl keeps⟩
  | typeOf node next ih =>
      have asked := completes node state keeps.1 faithful never
      have kept := infersFaithfully node state faithful
      unfold run
      cases outcome : infer node state with
      | mk result after =>
          rw [outcome] at asked kept
          cases result with
          | ok ty => exact ih ty (keeps.2 ty) kept asked.1
          | error failure => exact asked
  | binding id name next ih =>
      obtain ⟨node, stored, rfl, _⟩ := keeps.1
      have hit := tree.stored_iff.mp stored
      have left := @lookUp_never evaluator node.id name state never
      have kept := tree.faithful.lookUp given node.id name faithful
      unfold run
      cases outcome : evaluator.lookUp node.id name state with
      | mk result after =>
          rw [outcome] at left kept
          cases result with
          | ok item? =>
              refine ih item? (keeps.2 item? ?_) kept left
              intro _ item same
              rw [lookUp_ok tree given faithful outcome] at same
              obtain ⟨above, path, _⟩ := tree.exists_rootPath
                (show (evaluator.graph.node? node.id).isSome by simp [hit])
              exact tree.lexicalScope_pointsInto path (NameMap.mem_of_get? same)
          | error failure =>
              rcases lookUp_defect tree.ownId sound (fun _ => by simp [hit]) outcome with
                ⟨impatient, _⟩ | defect
              · exact absurd never impatient
              · exact ⟨left, Or.inl defect⟩
  | poll next ih =>
      unfold run
      cases go : state.cancellation.poll with
      | ok cancellation => exact ih keeps faithful (Cancellation.poll_never never go)
      | error failure => exact absurd never (Cancellation.poll_error go).1

theorem inferWithin_completes (tree : evaluator.graph.TreeShaped)
    (sound : ¬fault → evaluator.graph.ShapeCorrect)
    (given : evaluator.graph.Faithful evaluator.givenScopes) {levels : Nat} {node : Node}
    {state : Progress} (stored : evaluator.graph.Stored node)
    (faithful : evaluator.graph.Faithful state.scopes) (never : state.cancellation = .never) :
    Completes fault (evaluator.inferWithin levels node state) := by
  induction levels using Nat.strongRecOn generalizing node state with
  | ind levels ih =>
      have answers := evaluator.inferWithin_answers levels node state
      generalize evaluator.inferWithin levels node state = outcome at answers ⊢
      cases answers with
      | stopped go => exact absurd never (Cancellation.poll_error go).1
      | known go _ => exact ⟨Cancellation.poll_never never go, trivial⟩
      | cut go _ _ => exact ⟨Cancellation.poll_never never go, trivial⟩
      | tooDeep go _ _ => exact ⟨Cancellation.poll_never never go, Or.inr ⟨_, _, rfl⟩⟩
      | @entered levels cancellation result inner go _ _ ran =>
          have inside := run_completes tree sound given
            (tree.faithful.inferWithin given levels)
            (fun other between otherStored => ih levels (Nat.lt_succ_self levels) otherStored)
            (Graph.typingRule_keeps sound stored)
            (show evaluator.graph.Faithful ((state.polled cancellation).enter node.id).scopes
              from faithful)
            (show ((state.polled cancellation).enter node.id).cancellation = .never
              from Cancellation.poll_never never go)
          rw [ran] at inside
          obtain ⟨types, left⟩ := (state.polled cancellation).leave_eq node.id result inner
          rw [left]
          exact inside

theorem infer_completes (evaluator : Evaluator) (shape : evaluator.graph.ShapeCorrect)
    (given : evaluator.graph.Faithful evaluator.givenScopes) {id : NodeId}
    (stored : (evaluator.graph.node? id).isSome)
    (enough : evaluator.graph.size ≤ evaluator.maxDepth) :
    ∃ ty state, evaluator.infer id (.initial .never) = (.ok ty, state) := by
  obtain ⟨node, found⟩ := Option.isSome_iff_exists.mp stored
  have nodeStored : evaluator.graph.Stored node := ⟨id, found⟩
  have completes : Completes False
      (evaluator.inferWithin evaluator.maxDepth node (.initial .never)) :=
    inferWithin_completes shape.toTreeShaped (fun _ => shape) given nodeStored
      Graph.faithful_empty rfl
  have bounded : Bounded evaluator.graph []
      (evaluator.inferWithin evaluator.maxDepth node (.initial .never)) :=
    inferWithin_bounded nodeStored (Graph.tracks_initial .never) (by simpa using enough)
  simp only [infer, Graph.node_eq_ok.mpr found, inferNode, Progress.initial, Nat.sub_zero]
  change ∃ ty state, evaluator.inferWithin evaluator.maxDepth node (.initial .never) = (.ok ty, state)
  cases outcome : evaluator.inferWithin evaluator.maxDepth node (.initial .never) with
  | mk result state =>
      rw [outcome] at completes bounded
      cases result with
      | ok ty => exact ⟨ty, state, rfl⟩
      | error failure =>
          rcases completes.2 with ⟨impossible, _⟩ | ⟨deep, limit, exceeded⟩
          · exact impossible.elim
          · exact absurd exceeded (bounded deep limit)

end Evaluator

/-- In a graph of the right shape, every node can be resolved and typed from nothing. -/
theorem inspection_completes {graph : Graph} (shape : graph.ShapeCorrect) {id : NodeId}
    (stored : (graph.node? id).isSome) {maxDepth : Nat} (enough : graph.size ≤ maxDepth) :
    (∃ scopes, (resolveScope graph id none .never).1 = .ok scopes) ∧
      ∃ ty, (inferType graph id maxDepth .empty .never).answer = .ok ty := by
  have noFault : ¬False → graph.ShapeCorrect := fun _ => shape
  constructor
  · cases inspected : Resolver.inspect ⟨graph, []⟩ id ⟨∅, .never⟩ with
    | mk result final =>
        cases result with
        | ok value => exact ⟨∅ ∪ final.delta, by simp [resolveScope, inspected]⟩
        | error failure =>
            rcases Resolver.inspect_failure noFault (fun _ => stored) inspected with
              ⟨impatient, _⟩ | ⟨impossible, _⟩
            · exact absurd rfl impatient
            · exact impossible.elim
  · obtain ⟨ty, state, inferred⟩ := Evaluator.infer_completes ⟨graph, maxDepth, ∅, ∅⟩ shape
      Graph.faithful_empty stored enough
    simp only [inferType, InspectionCache.empty, inferred]
    exact ⟨ty, rfl⟩

/-- The beginning `let x = , y = if x` of a formula. -/
def unfinishedSample : Graph :=
  (show Build NodeId from do
    let x ← Builder.identifier "x"
    let first ← Builder.context .identifierPairedExpression [(Slot.pairKey, x)]
    let use ← Builder.identifierExpression "x"
    let choice ← Builder.context .ifExpression [(Slot.ifCondition, use)]
    let y ← Builder.identifier "y"
    let second ← Builder.context .identifierPairedExpression
      [(Slot.pairKey, y), (Slot.pairValue, choice)]
    let bindings ← Builder.csvArray [first, second]
    Builder.context .letExpression [(Slot.letBindings, bindings)]).run .empty |>.2.graph

theorem unfinishedSample_completes :
    unfinishedSample.ShapeCorrect ∧
      (∃ scopes, (resolveScope unfinishedSample 5 none .never).1 = .ok scopes) ∧
      ∃ ty, (inferType unfinishedSample 5 512 .empty .never).answer = .ok ty :=
  have shape : unfinishedSample.ShapeCorrect := by decide +kernel
  ⟨shape, inspection_completes shape (by decide +kernel) (by decide +kernel)⟩

end FormulaInspection
