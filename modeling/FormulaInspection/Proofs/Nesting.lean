import FormulaInspection.Proofs.Bookkeeping
import FormulaInspection.Proofs.Depth

/-!
How deep an evaluation can get, whatever the graph looks like. Every moment of every evaluation is
described by what is left to do at the innermost node and by the books. At each of them the nodes
that the evaluation is inside of are different nodes of the graph, so there are never more of them
than the graph has nodes.
-/

namespace FormulaInspection

namespace Evaluator

variable {evaluator : Evaluator}

/-- The moments of the evaluations that begin with nothing but the given layers: the computation is
what is left to do at the node entered last. -/
inductive Passes (evaluator : Evaluator) : Demand Ty → Progress → Prop
  | start {id node} (cancellation : Cancellation) : evaluator.graph.node id = .ok node →
      Passes evaluator (Demand.askType node) (.initial cancellation)
  | entered {node next state cancellation} : Passes evaluator (.typeOf node next) state →
      state.cancellation.poll = .ok cancellation → evaluator.knownType? state node.id = none →
      state.inProgress[node.id]? = none → state.depth < evaluator.maxDepth →
      Passes evaluator (evaluator.graph.typingRule node) ((state.polled cancellation).enter node.id)
  | typed {node next state ty after} : Passes evaluator (.typeOf node next) state →
      evaluator.inferNode node state = (.ok ty, after) → Passes evaluator (next ty) after
  | untyped {node next state failure after} : Passes evaluator (.typeOf node next) state →
      evaluator.inferNode node state = (.error failure, after) →
      Passes evaluator (.fail failure) after
  | bound {id name next state item? after} : Passes evaluator (.binding id name next) state →
      evaluator.lookUp id name state = (.ok item?, after) → Passes evaluator (next item?) after
  | unbound {id name next state failure after} : Passes evaluator (.binding id name next) state →
      evaluator.lookUp id name state = (.error failure, after) →
      Passes evaluator (.fail failure) after
  | polled {next state cancellation} : Passes evaluator (.poll next) state →
      state.cancellation.poll = .ok cancellation → Passes evaluator next (state.polled cancellation)

theorem Continues.tracks {stack : List NodeId} {before after : Progress}
    (continues : evaluator.Continues before after)
    (tracks : evaluator.graph.Tracks stack before) : evaluator.graph.Tracks stack after :=
  tracks.congr continues.depth continues.inProgress

theorem inferNode_continues (node : Node) (state : Progress) :
    evaluator.Continues state (evaluator.inferNode node state).2 :=
  inferWithin_continues (evaluator.maxDepth - state.depth) node state

theorem Passes.keeps {demand : Demand Ty} {state : Progress}
    (passes : evaluator.Passes demand state) :
    demand.Keeps (evaluator.graph.ruleContract True) (fun _ => True) ∨
      ∃ failure, demand = .fail failure := by
  induction passes with
  | @start id node _ found =>
      have stored : evaluator.graph.Stored node := ⟨id, Graph.node_eq_ok.mp found⟩
      exact Or.inl (Demand.Keeps.askType stored)
  | entered _ _ _ _ _ ih =>
      have keeps := ih.resolve_right (by simp)
      exact Or.inl (Graph.typingRule_keeps (fun noFault => absurd trivial noFault) keeps.1)
  | @typed _ _ _ ty _ _ _ ih =>
      have keeps := ih.resolve_right (by simp)
      exact Or.inl (keeps.2 ty)
  | untyped _ _ _ => exact Or.inr ⟨_, rfl⟩
  | @bound _ _ _ _ item? _ _ _ ih =>
      have keeps := ih.resolve_right (by simp)
      exact Or.inl (keeps.2 item? fun noFault => absurd trivial noFault)
  | unbound _ _ _ => exact Or.inr ⟨_, rfl⟩
  | polled _ _ ih =>
      have keeps := ih.resolve_right (by simp)
      exact Or.inl keeps

theorem Passes.stored {node : Node} {next : Ty → Demand Ty} {state : Progress}
    (passes : evaluator.Passes (.typeOf node next) state) : evaluator.graph.Stored node :=
  (passes.keeps.resolve_right (by simp)).1

theorem Passes.invariant {holds : Progress → Prop}
    (initial : ∀ cancellation, holds (.initial cancellation))
    (keptPolled : ∀ {state} cancellation, holds state → holds (state.polled cancellation))
    (keptEnter : ∀ {node : Node} {state : Progress}, evaluator.graph.Stored node →
      state.inProgress[node.id]? = none → holds state → holds (state.enter node.id))
    (keptInfer : ∀ node {state}, holds state → holds (evaluator.inferNode node state).2)
    (keptLookUp : ∀ id name {state}, holds state → holds (evaluator.lookUp id name state).2)
    {demand : Demand Ty} {state : Progress} (passes : evaluator.Passes demand state) :
    holds state := by
  induction passes with
  | start cancellation _ => exact initial cancellation
  | @entered _ _ _ cancellation asking _ _ fresh _ ih =>
      exact keptEnter asking.stored fresh (keptPolled cancellation ih)
  | @typed node _ _ _ _ _ inferred ih =>
      have kept := keptInfer node ih
      rwa [inferred] at kept
  | @untyped node _ _ _ _ _ inferred ih =>
      have kept := keptInfer node ih
      rwa [inferred] at kept
  | @bound id name _ _ _ _ _ found ih =>
      have kept := keptLookUp id name ih
      rwa [found] at kept
  | @unbound id name _ _ _ _ _ found ih =>
      have kept := keptLookUp id name ih
      rwa [found] at kept
  | @polled _ _ cancellation _ _ ih => exact keptPolled cancellation ih

theorem Passes.tracks {demand : Demand Ty} {state : Progress}
    (passes : evaluator.Passes demand state) : ∃ stack, evaluator.graph.Tracks stack state := by
  refine @Passes.invariant evaluator (fun state => ∃ stack, evaluator.graph.Tracks stack state)
    ?initial ?polled ?enter ?infer ?lookUp demand state passes
  case initial => exact fun cancellation => ⟨[], Graph.tracks_initial cancellation⟩
  case polled =>
    rintro _ _ ⟨stack, tracks⟩
    exact ⟨stack, tracks.congr rfl rfl⟩
  case enter =>
    rintro node _ stored fresh ⟨stack, tracks⟩
    exact ⟨node.id :: stack, tracks.enter stored (tracks.not_mem fresh)⟩
  case infer =>
    rintro node state ⟨stack, tracks⟩
    exact ⟨stack, (evaluator.inferNode_continues node state).tracks tracks⟩
  case lookUp =>
    rintro id name state ⟨stack, tracks⟩
    exact ⟨stack, (evaluator.lookUp_continues id name state).tracks tracks⟩

theorem Passes.depth_le {demand : Demand Ty} {state : Progress}
    (passes : evaluator.Passes demand state) : state.depth ≤ evaluator.graph.size := by
  obtain ⟨stack, tracks⟩ := passes.tracks
  rw [tracks.depth]
  exact Graph.length_le_size_of_borne tracks.unique tracks.borne

theorem inferWithin_not_tooDeep {levels : Nat} {node : Node} {cancellation : Cancellation}
    (stored : evaluator.graph.Stored node) (enough : evaluator.graph.size ≤ levels)
    (deep : NodeId) (limit : Nat) :
    (evaluator.inferWithin levels node (.initial cancellation)).1 ≠
      .error (.depthExceeded deep limit) := by
  intro exceeded
  have bounded := @inferWithin_bounded evaluator levels [] node (.initial cancellation) stored
    (Graph.tracks_initial cancellation) (by simpa using enough)
  unfold Bounded at bounded
  rw [exceeded] at bounded
  exact bounded deep limit rfl

end Evaluator

/-- No evaluation is ever nested deeper than the graph has nodes, and so none comes to a limit that
is not below that number. -/
theorem inferType_nesting (graph : Graph) (cache : InspectionCache) (maxDepth : Nat) :
    (∀ demand state,
      Evaluator.Passes ⟨graph, maxDepth, cache.types, cache.scopes⟩ demand state →
      state.depth ≤ graph.size) ∧
    (graph.size ≤ maxDepth → ∀ id cancellation deep limit,
      (inferType graph id maxDepth cache cancellation).answer ≠
        .error (.depthExceeded deep limit)) := by
  refine ⟨fun demand state passes => passes.depth_le, ?_⟩
  intro enough id cancellation deep limit
  cases found : graph.node id with
  | error missing =>
      have defect := (Graph.node_meets fun noFault => absurd trivial noFault).defect found
      rw [inferType_missing found]
      intro exceeded
      rw [Except.error.inj exceeded] at defect
      exact defect.2
  | ok node =>
      have stored : graph.Stored node := ⟨id, Graph.node_eq_ok.mp found⟩
      rw [inferType_answer found]
      exact Evaluator.inferWithin_not_tooDeep stored enough deep limit

/-- Two parentheses around each other, each stored under the id of the other. -/
def crossedSample : Graph :=
  let parenthesis (id : NodeId) : ContextNode :=
    { id, kind := .parenthesizedExpression, slot := some Slot.wrappedContent }
  { Graph.empty with
    contextNodes := .ofList [(1, parenthesis 2), (2, parenthesis 1)]
    parents := .ofList [(1, 1), (2, 2)]
    children := .ofList [(1, [1]), (2, [2])] }

theorem crossedSample_nesting :
    (∃ demand state, Evaluator.Passes ⟨crossedSample, 2, ∅, ∅⟩ demand state ∧
      state.depth = 2 ∧ state.depth ≤ crossedSample.size) ∧
    (inferType crossedSample 1 1 .empty .never).answer.map (fun _ => ()) =
      .error (.depthExceeded 1 1) ∧
    ∀ deep limit,
      (inferType crossedSample 1 2 .empty .never).answer ≠ .error (.depthExceeded deep limit) := by
  have nesting := inferType_nesting crossedSample .empty 2
  have first : Evaluator.Passes ⟨crossedSample, 2, ∅, ∅⟩ _ _ :=
    .start .never (show crossedSample.node 1 = .ok _ from rfl)
  have second := first.entered rfl rfl rfl (by decide)
  have third := Evaluator.Passes.entered second rfl rfl rfl (by decide)
  refine ⟨⟨_, _, third, rfl, nesting.1 _ _ third⟩, by decide +kernel, ?_⟩
  exact nesting.2 (by decide) 1 .never

end FormulaInspection
