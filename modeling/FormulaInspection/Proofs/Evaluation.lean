import FormulaInspection.Inference.Evaluator

/-!
What one step of an evaluation can do: every property of evaluations is shown along these cases.
-/

namespace FormulaInspection

namespace Progress

def polled (state : Progress) (cancellation : Cancellation) : Progress :=
  { state with cancellation }

theorem leave_eq (before : Progress) (id : NodeId) (result : Except InspectionError Ty)
    (inner : Progress) :
    ∃ types, before.leave id result inner =
      (result,
        { inner with
          types
          inProgress := inner.inProgress.erase id
          depth := inner.depth - 1
          cycleDepth? :=
            shallowest before.cycleDepth? (inner.cycleDepth?.filter (· < before.depth)) }) := by
  unfold leave
  cases result with
  | error failure => exact ⟨inner.types, rfl⟩
  | ok ty =>
      simp only
      split
      · exact ⟨inner.types, rfl⟩
      · exact ⟨inner.types.insert id ty, rfl⟩

theorem leave_ok (before : Progress) (id : NodeId) (ty : Ty) (inner : Progress) :
    before.leave id (.ok ty) inner =
      (.ok ty,
        { inner with
          types := if inner.cycleDepth?.isSome then inner.types else inner.types.insert id ty
          inProgress := inner.inProgress.erase id
          depth := inner.depth - 1
          cycleDepth? :=
            shallowest before.cycleDepth? (inner.cycleDepth?.filter (· < before.depth)) }) := by
  unfold leave
  simp only
  split <;> rfl

end Progress

theorem Demand.bind_read {α β : Type} (value : α) (next : α → Demand β) :
    (liftM (.ok value : Except InspectionError α) >>= next) = next value :=
  rfl

def Outcome.andThen {α β : Type} (outcome : Outcome α) (next : α → Progress → Outcome β) :
    Outcome β :=
  match outcome with
  | (.ok value, state) => next value state
  | (.error failure, state) => (.error failure, state)

theorem Outcome.andThen_keeps {α β : Type} {holds : Progress → Prop} {outcome : Outcome α}
    {next : α → Progress → Outcome β} (asked : holds outcome.2)
    (onward : ∀ value state, holds state → holds (next value state).2) :
    holds (Outcome.andThen outcome next).2 := by
  obtain ⟨result, after⟩ := outcome
  cases result with
  | ok value => exact onward value after asked
  | error failure => exact asked

namespace Evaluator

variable {evaluator : Evaluator}

section

variable {α : Type} (infer : Node → Progress → Outcome Ty) (state : Progress)

theorem run_typeOf (node : Node) (next : Ty → Demand α) :
    evaluator.run infer (.typeOf node next) state =
      Outcome.andThen (infer node state) fun ty => evaluator.run infer (next ty) := by
  unfold run Outcome.andThen
  cases infer node state with
  | mk result after => cases result <;> rfl

theorem run_binding (id : NodeId) (name : String) (next : Option ScopeItem → Demand α) :
    evaluator.run infer (.binding id name next) state =
      Outcome.andThen (evaluator.lookUp id name state) fun item? =>
        evaluator.run infer (next item?) := by
  unfold run Outcome.andThen
  cases evaluator.lookUp id name state with
  | mk result after => cases result <;> rfl

theorem run_bind {β : Type} (demand : Demand α) (next : α → Demand β) :
    evaluator.run infer (demand >>= next) state =
      Outcome.andThen (evaluator.run infer demand state) fun value =>
        evaluator.run infer (next value) := by
  change evaluator.run infer (demand.bind next) state = _
  induction demand generalizing state with
  | answer value => rfl
  | fail failure => rfl
  | typeOf node onward ih =>
      rw [Demand.bind, run_typeOf, run_typeOf]
      cases infer node state with
      | mk result after =>
          cases result with
          | error failure => rfl
          | ok ty => exact ih ty after
  | binding id name onward ih =>
      rw [Demand.bind, run_binding, run_binding]
      cases evaluator.lookUp id name state with
      | mk result after =>
          cases result with
          | error failure => rfl
          | ok item? => exact ih item? after
  | poll onward ih =>
      unfold Demand.bind run
      cases state.cancellation.poll with
      | error failure => rfl
      | ok cancellation => exact ih { state with cancellation }

end

/-- The ways in which a question for the type of a node is answered: the host stops the evaluation,
the type is known, the node is in progress, the nesting has come to its limit, or the rule of the
node is run one level further down. -/
inductive Answers (evaluator : Evaluator) (node : Node) (state : Progress) : Nat → Outcome Ty → Prop
  | stopped {levels failure} : state.cancellation.poll = .error failure →
      Answers evaluator node state levels (.error failure, state)
  | known {levels cancellation ty} : state.cancellation.poll = .ok cancellation →
      evaluator.knownType? state node.id = some ty →
      Answers evaluator node state levels (.ok ty, state.polled cancellation)
  | cut {levels cancellation enteredAt} : state.cancellation.poll = .ok cancellation →
      evaluator.knownType? state node.id = none → state.inProgress[node.id]? = some enteredAt →
      Answers evaluator node state levels (.ok .any, (state.polled cancellation).noteCycle enteredAt)
  | tooDeep {cancellation} : state.cancellation.poll = .ok cancellation →
      evaluator.knownType? state node.id = none → state.inProgress[node.id]? = none →
      Answers evaluator node state 0
        (.error (.depthExceeded node.id evaluator.maxDepth), state.polled cancellation)
  | entered {levels cancellation result inner} : state.cancellation.poll = .ok cancellation →
      evaluator.knownType? state node.id = none → state.inProgress[node.id]? = none →
      evaluator.run (evaluator.inferWithin levels) (evaluator.graph.typingRule node)
        ((state.polled cancellation).enter node.id) = (result, inner) →
      Answers evaluator node state (levels + 1)
        ((state.polled cancellation).leave node.id result inner)

theorem inferWithin_answers (evaluator : Evaluator) (levels : Nat) (node : Node) (state : Progress) :
    evaluator.Answers node state levels (evaluator.inferWithin levels node state) := by
  unfold inferWithin
  cases go : state.cancellation.poll with
  | error failure => exact .stopped go
  | ok cancellation =>
      simp only
      cases seen : evaluator.knownType? state node.id with
      | some ty =>
          have known : evaluator.knownType? { state with cancellation } node.id = some ty := seen
          simp only [known]
          exact .known go seen
      | none =>
          have unknown : evaluator.knownType? { state with cancellation } node.id = none := seen
          simp only [unknown]
          cases entry : state.inProgress[node.id]? with
          | some enteredAt => exact .cut go seen entry
          | none =>
              cases levels with
              | zero => exact .tooDeep go seen entry
              | succ levels => exact .entered go seen entry rfl

section

variable {node : Node} {state : Progress} {cancellation : Cancellation}

theorem inferWithin_known {levels : Nat} {ty : Ty}
    (go : state.cancellation.poll = .ok cancellation)
    (seen : evaluator.knownType? state node.id = some ty) :
    evaluator.inferWithin levels node state = (.ok ty, state.polled cancellation) := by
  have known : evaluator.knownType? { state with cancellation } node.id = some ty := seen
  unfold inferWithin
  simp only [go, known]
  rfl

theorem inferWithin_cut {levels enteredAt : Nat}
    (go : state.cancellation.poll = .ok cancellation)
    (seen : evaluator.knownType? state node.id = none)
    (entry : state.inProgress[node.id]? = some enteredAt) :
    evaluator.inferWithin levels node state =
      (.ok .any, (state.polled cancellation).noteCycle enteredAt) := by
  have unknown : evaluator.knownType? { state with cancellation } node.id = none := seen
  unfold inferWithin
  simp only [go, unknown, entry]
  rfl

theorem inferWithin_entered {levels : Nat} {result : Except InspectionError Ty} {inner : Progress}
    (go : state.cancellation.poll = .ok cancellation)
    (seen : evaluator.knownType? state node.id = none)
    (entry : state.inProgress[node.id]? = none)
    (ran : evaluator.run (evaluator.inferWithin levels) (evaluator.graph.typingRule node)
      ((state.polled cancellation).enter node.id) = (result, inner)) :
    evaluator.inferWithin (levels + 1) node state =
      (state.polled cancellation).leave node.id result inner := by
  have unknown : evaluator.knownType? { state with cancellation } node.id = none := seen
  unfold inferWithin
  simp only [go, unknown, entry]
  change (state.polled cancellation).leave node.id
    (evaluator.run (evaluator.inferWithin levels) (evaluator.graph.typingRule node)
      ((state.polled cancellation).enter node.id)).1
    (evaluator.run (evaluator.inferWithin levels) (evaluator.graph.typingRule node)
      ((state.polled cancellation).enter node.id)).2 = _
  rw [ran]

end

end Evaluator

def InspectionCache.commit (cache : InspectionCache) (outcome : Outcome Ty) : InspectionCache :=
  match outcome.1 with
  | .ok _ => { types := cache.types ∪ outcome.2.types, scopes := cache.scopes ∪ outcome.2.scopes }
  | .error _ => cache

theorem inferType_missing {graph : Graph} {id : NodeId} {failure : InspectionError}
    (missing : graph.node id = .error failure) (maxDepth : Nat) (cache : InspectionCache)
    (cancellation : Cancellation) :
    inferType graph id maxDepth cache cancellation = ⟨.error failure, cache, cancellation⟩ := by
  simp only [inferType, Evaluator.infer, missing]
  rfl

section

variable {graph : Graph} {id : NodeId} {node : Node} (found : graph.node id = .ok node)
  (maxDepth : Nat) (cache : InspectionCache) (cancellation : Cancellation)

include found

theorem inferType_eq :
    let outcome := Evaluator.inferWithin ⟨graph, maxDepth, cache.types, cache.scopes⟩ maxDepth node
      (.initial cancellation)
    inferType graph id maxDepth cache cancellation =
      ⟨outcome.1, cache.commit outcome, outcome.2.cancellation⟩ := by
  have begun : Evaluator.infer ⟨graph, maxDepth, cache.types, cache.scopes⟩ id
      (.initial cancellation) = Evaluator.inferWithin ⟨graph, maxDepth, cache.types, cache.scopes⟩
        maxDepth node (.initial cancellation) := by
    simp only [Evaluator.infer, found]
    rfl
  simp only [inferType, begun]
  cases Evaluator.inferWithin ⟨graph, maxDepth, cache.types, cache.scopes⟩ maxDepth node
      (.initial cancellation) with
  | mk result state => cases result <;> rfl

theorem inferType_answer :
    (inferType graph id maxDepth cache cancellation).answer =
      (Evaluator.inferWithin ⟨graph, maxDepth, cache.types, cache.scopes⟩ maxDepth node
        (.initial cancellation)).1 := by
  rw [inferType_eq found]

theorem inferType_cache :
    (inferType graph id maxDepth cache cancellation).cache =
      cache.commit (Evaluator.inferWithin ⟨graph, maxDepth, cache.types, cache.scopes⟩ maxDepth node
        (.initial cancellation)) := by
  rw [inferType_eq found]

end

end FormulaInspection
