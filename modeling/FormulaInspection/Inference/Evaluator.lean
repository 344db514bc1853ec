import FormulaInspection.Inference.Rules
import FormulaInspection.Scope.Resolver

/-!
Type inference. The evaluator answers the questions of the typing rules, remembers the types it
finds and the scopes it resolves, and cuts cycles: a node that is asked for while it is being
inferred is `any` for the asker. A type found on the way round such a cycle depends on where the
evaluation began, so it is not remembered.

Types and scopes known beforehand are given layers that are never written.
-/

namespace FormulaInspection

structure Evaluator where
  graph : Graph
  maxDepth : Nat
  givenTypes : IdMap Ty
  givenScopes : Scopes

structure Progress where
  types : IdMap Ty
  scopes : Scopes
  /-- The nodes being inferred, with the depth each was entered at. -/
  inProgress : IdMap Nat
  depth : Nat
  /-- The least depth of a node in progress that the current computation has come back to. -/
  cycleDepth? : Option Nat
  cancellation : Cancellation

abbrev Outcome (α : Type) := Except InspectionError α × Progress

namespace Progress

def initial (cancellation : Cancellation) : Progress :=
  { types := ∅, scopes := ∅, inProgress := ∅, depth := 0, cycleDepth? := none, cancellation }

def shallowest : Option Nat → Option Nat → Option Nat
  | some left, some right => some (min left right)
  | some left, none => some left
  | none, right => right

def noteCycle (state : Progress) (enteredAt : Nat) : Progress :=
  { state with cycleDepth? := shallowest state.cycleDepth? (some enteredAt) }

def enter (state : Progress) (id : NodeId) : Progress :=
  { state with
    inProgress := state.inProgress.insert id state.depth
    depth := state.depth + 1
    cycleDepth? := none }

/-- Ends the inference of a node that was entered from the state `before`. A cycle that closes at
the node ends with it; one that reaches further out stays open. A type is remembered unless a cycle
was met on the way to it. -/
def leave (before : Progress) (id : NodeId) (result : Except InspectionError Ty)
    (inner : Progress) : Outcome Ty :=
  let open? := inner.cycleDepth?.filter (· < before.depth)
  let after :=
    { inner with
      inProgress := inner.inProgress.erase id
      depth := inner.depth - 1
      cycleDepth? := shallowest before.cycleDepth? open? }
  match result with
  | .error failure => (.error failure, after)
  | .ok ty =>
    if inner.cycleDepth?.isSome then (.ok ty, after)
    else (.ok ty, { after with types := after.types.insert id ty })

end Progress

namespace Evaluator

def knownType? (evaluator : Evaluator) (state : Progress) (id : NodeId) : Option Ty :=
  state.types[id]?.or evaluator.givenTypes[id]?

def knownScope? (evaluator : Evaluator) (state : Progress) (id : NodeId) : Option Scope :=
  state.scopes[id]?.or evaluator.givenScopes[id]?

def resolve (evaluator : Evaluator) (id : NodeId) (state : Progress) : Outcome Unit :=
  if (evaluator.knownScope? state id).isSome then (.ok (), state)
  else
    match Resolver.inspect ⟨evaluator.graph, [state.scopes, evaluator.givenScopes]⟩ id
        ⟨∅, state.cancellation⟩ with
    | (.error failure, resolution) =>
      (.error failure, { state with cancellation := resolution.cancellation })
    | (.ok (), resolution) =>
      (.ok (),
        { state with
          scopes := state.scopes ∪ resolution.delta
          cancellation := resolution.cancellation })

def lookUp (evaluator : Evaluator) (id : NodeId) (name : String) (state : Progress) :
    Outcome (Option ScopeItem) :=
  match evaluator.resolve id state with
  | (.error failure, state) => (.error failure, state)
  | (.ok (), state) =>
    match evaluator.knownScope? state id with
    | some scope => (.ok (NameMap.get? scope name), state)
    | none => (.error (.missingScope id), state)

def run {α : Type} (evaluator : Evaluator) (infer : Node → Progress → Outcome Ty) :
    Demand α → Progress → Outcome α
  | .answer value, state => (.ok value, state)
  | .fail failure, state => (.error failure, state)
  | .typeOf node next, state =>
    match infer node state with
    | (.ok ty, state) => evaluator.run infer (next ty) state
    | (.error failure, state) => (.error failure, state)
  | .binding node name next, state =>
    match evaluator.lookUp node name state with
    | (.ok item?, state) => evaluator.run infer (next item?) state
    | (.error failure, state) => (.error failure, state)
  | .poll next, state =>
    match state.cancellation.poll with
    | .ok cancellation => evaluator.run infer next { state with cancellation }
    | .error failure => (.error failure, state)

def inferWithin (evaluator : Evaluator) : Nat → Node → Progress → Outcome Ty
  | levels, node, state =>
    match state.cancellation.poll with
    | .error failure => (.error failure, state)
    | .ok cancellation =>
      let state := { state with cancellation }
      match evaluator.knownType? state node.id with
      | some ty => (.ok ty, state)
      | none =>
        match state.inProgress[node.id]? with
        | some enteredAt => (.ok .any, state.noteCycle enteredAt)
        | none =>
          match levels with
          | 0 => (.error (.depthExceeded node.id evaluator.maxDepth), state)
          | levels + 1 =>
            let (result, inner) :=
              evaluator.run (evaluator.inferWithin levels) (evaluator.graph.typingRule node)
                (state.enter node.id)
            state.leave node.id result inner

def inferNode (evaluator : Evaluator) (node : Node) (state : Progress) : Outcome Ty :=
  evaluator.inferWithin (evaluator.maxDepth - state.depth) node state

def infer (evaluator : Evaluator) (id : NodeId) (state : Progress) : Outcome Ty :=
  match evaluator.graph.node id with
  | .ok node => evaluator.inferNode node state
  | .error failure => (.error failure, state)

end Evaluator

structure InspectionCache where
  types : IdMap Ty
  scopes : Scopes

def InspectionCache.empty : InspectionCache :=
  { types := ∅, scopes := ∅ }

instance : Inhabited InspectionCache := ⟨.empty⟩

/-- The type of a node. What was found on the way goes into the cache unless the request fails. -/
def inferType (graph : Graph) (id : NodeId) (maxDepth : Nat) (cache : InspectionCache)
    (cancellation : Cancellation) : Served InspectionCache Ty :=
  let evaluator : Evaluator :=
    { graph, maxDepth, givenTypes := cache.types, givenScopes := cache.scopes }
  match evaluator.infer id (.initial cancellation) with
  | (.ok ty, state) =>
    { answer := .ok ty
      cache := { types := cache.types ∪ state.types, scopes := cache.scopes ∪ state.scopes }
      cancellation := state.cancellation }
  | (.error failure, state) => ⟨.error failure, cache, state.cancellation⟩

end FormulaInspection
