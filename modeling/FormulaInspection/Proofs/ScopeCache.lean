import FormulaInspection.Proofs.Evaluation
import FormulaInspection.Proofs.LookUp

/-!
A cache of scopes is transparent: whatever it has been used for, it holds lexical scopes only. What
every resolution keeps is kept by every evaluation, and so by a cache between requests.
-/

namespace FormulaInspection

namespace ScopeInvariant

variable {evaluator : Evaluator} {holds : Scopes → Prop}

theorem run (invariant : ScopeInvariant evaluator.graph holds)
    (given : holds evaluator.givenScopes) {infer : Node → Progress → Outcome Ty}
    (infers : ∀ node state, holds state.scopes → holds (infer node state).2.scopes)
    {α : Type} (demand : Demand α) {state : Progress} (held : holds state.scopes) :
    holds (evaluator.run infer demand state).2.scopes := by
  induction demand generalizing state with
  | answer value => exact held
  | fail failure => exact held
  | typeOf node next ih =>
      rw [Evaluator.run_typeOf]
      exact @Outcome.andThen_keeps _ _ (fun after => holds after.scopes) _ _
        (infers node state held) fun ty after kept => ih ty kept
  | binding node name next ih =>
      rw [Evaluator.run_binding]
      exact @Outcome.andThen_keeps _ _ (fun after => holds after.scopes) _ _
        (invariant.lookUp given node name held) fun item? after kept => ih item? kept
  | poll next ih =>
      unfold Evaluator.run
      split
      · exact ih held
      · exact held

theorem inferWithin (invariant : ScopeInvariant evaluator.graph holds)
    (given : holds evaluator.givenScopes) (levels : Nat) (node : Node) (state : Progress)
    (held : holds state.scopes) : holds (evaluator.inferWithin levels node state).2.scopes := by
  induction levels using Nat.strongRecOn generalizing node state with
  | ind levels ih =>
      have answers := evaluator.inferWithin_answers levels node state
      generalize evaluator.inferWithin levels node state = outcome at answers ⊢
      cases answers with
      | stopped _ => exact held
      | known _ _ => exact held
      | cut _ _ _ => exact held
      | tooDeep _ _ _ => exact held
      | @entered levels cancellation result inner _ _ _ ran =>
          have kept := invariant.run given (ih levels (Nat.lt_succ_self levels))
            (evaluator.graph.typingRule node)
            (show holds ((state.polled cancellation).enter node.id).scopes from held)
          rw [ran] at kept
          obtain ⟨types, left⟩ := (state.polled cancellation).leave_eq node.id result inner
          rw [left]
          exact kept

theorem infer (invariant : ScopeInvariant evaluator.graph holds)
    (given : holds evaluator.givenScopes) (id : NodeId) (cancellation : Cancellation) :
    holds (evaluator.infer id (.initial cancellation)).2.scopes := by
  unfold Evaluator.infer
  split
  · exact invariant.inferWithin given _ _ _ invariant.empty
  · exact invariant.empty

end ScopeInvariant

inductive Request where
  | resolve (root : NodeId) (cancellation : Cancellation)
  | infer (id : NodeId) (maxDepth : Nat) (cancellation : Cancellation)

namespace InspectionCache

variable {graph : Graph}

def serve (graph : Graph) (cache : InspectionCache) : Request → InspectionCache
  | .resolve root cancellation =>
    { cache with scopes := (resolveScopeInto graph root cache.scopes cancellation).cache }
  | .infer id maxDepth cancellation => (inferType graph id maxDepth cache cancellation).cache

def afterRequests (graph : Graph) (requests : List Request) : InspectionCache :=
  requests.foldl (serve graph) .empty

theorem serve_keeps {holds : Scopes → Prop} (invariant : ScopeInvariant graph holds)
    {cache : InspectionCache} (request : Request) (held : holds cache.scopes) :
    holds (cache.serve graph request).scopes := by
  cases request with
  | resolve root cancellation =>
      simp only [serve, resolveScopeInto]
      split
      · rename_i final inspected
        refine invariant.union held (invariant.resolved ?_ inspected)
        intro layer member
        obtain rfl := List.mem_singleton.mp member
        exact held
      · exact held
  | infer id maxDepth cancellation =>
      have kept := @ScopeInvariant.infer ⟨graph, maxDepth, cache.types, cache.scopes⟩ holds invariant
        held id cancellation
      simp only [serve, inferType]
      split
      · rename_i ty state inferred
        rw [inferred] at kept
        exact invariant.union held kept
      · exact held

theorem afterRequests_induction {holds : InspectionCache → Prop} (empty : holds .empty)
    (served : ∀ cache request, holds cache → holds (serve graph cache request))
    (requests : List Request) : holds (afterRequests graph requests) := by
  have from_cache : ∀ cache, holds cache → holds (requests.foldl (serve graph) cache) := by
    induction requests with
    | nil => exact fun cache held => held
    | cons request rest ih => exact fun cache held => ih _ (served cache request held)
  exact from_cache .empty empty

theorem afterRequests_keeps {holds : Scopes → Prop} (invariant : ScopeInvariant graph holds)
    (requests : List Request) : holds (afterRequests graph requests).scopes :=
  @afterRequests_induction graph (fun cache => holds cache.scopes) invariant.empty
    (fun _ request held => serve_keeps invariant request held) requests

end InspectionCache

structure Resolved (graph : Graph) (root : NodeId) (given scopes : Scopes) : Prop where
  faithful : graph.Faithful scopes
  known : root ∈ scopes
  kept : ∀ id ∈ given, id ∈ scopes

theorem Resolved.scope {graph : Graph} {root id : NodeId} {given scopes : Scopes}
    (resolved : Resolved graph root given scopes) (member : id ∈ scopes) :
    scopes[id]? = some (graph.lexicalScope id) := by
  rw [Std.ExtTreeMap.mem_iff_isSome_getElem?] at member
  obtain ⟨scope, found⟩ := Option.isSome_iff_exists.mp member
  rw [found, resolved.faithful id scope found]

theorem resolveScope_faithful {graph : Graph} (tree : graph.TreeShaped) {root : NodeId}
    {given? : Option Scopes} {cancellation : Cancellation} {scopes : Scopes}
    (trusted : ∀ given ∈ given?, graph.Faithful given)
    (resolved : (resolveScope graph root given? cancellation).1 = .ok scopes) :
    Resolved graph root (given?.getD ∅) scopes := by
  have given : graph.Faithful (given?.getD ∅) := by
    cases given? with
    | none => exact Graph.faithful_empty
    | some layer => exact trusted layer rfl
  rcases resolveScope_eq_ok resolved with ⟨known, rfl⟩ | ⟨unknown, final, inspected, rfl⟩
  · exact ⟨given, known, fun id member => member⟩
  · obtain ⟨faithful, reached⟩ := Resolver.inspect_faithful tree
      (fun layer member => trusted layer (by simpa using member)) inspected
    refine ⟨given.union faithful, ?_, fun id member => Std.ExtTreeMap.mem_union_iff.mpr (.inl member)⟩
    refine Std.ExtTreeMap.mem_union_iff.mpr (Or.inr (reached ?_ root .refl))
    cases given? with
    | none => rfl
    | some layer =>
        have absent : layer[root]? = none :=
          Std.ExtTreeMap.getElem?_eq_none unknown
        simp [Resolver.given?, absent]

theorem resolveScope_ok_of_none {graph : Graph} {id : NodeId} {cancellation : Cancellation}
    {fresh given : Scopes} (resolved : (resolveScope graph id none cancellation).1 = .ok fresh)
    (unknown : id ∉ given) :
    ∃ final, Resolver.inspect ⟨graph, [given]⟩ id ⟨∅, cancellation⟩ = (.ok (), final) := by
  rcases resolveScope_eq_ok resolved with ⟨known, _⟩ | ⟨_, final, inspected, _⟩
  · simp at known
  · have absent : given[id]? = none :=
      Std.ExtTreeMap.getElem?_eq_none unknown
    have without := @Resolver.inspect_outcome ⟨graph, []⟩ id rfl cancellation
    have withGiven := @Resolver.inspect_outcome ⟨graph, [given]⟩ id
      (by simp [Resolver.given?, absent]) cancellation
    rw [← without] at withGiven
    have answer := congrArg Prod.fst withGiven
    change Resolver.inspect ⟨graph, []⟩ id ⟨∅, cancellation⟩ = _ at inspected
    simp only [inspected] at answer
    exact ⟨_, Prod.ext answer rfl⟩

/-- Whatever a cache has been used for before, a node that can be resolved without it is resolved
with it to the same scope, and what the cache held stands. -/
theorem resolveScope_afterRequests {graph : Graph} (tree : graph.TreeShaped)
    (requests : List Request) {id : NodeId} {cancellation : Cancellation} {fresh : Scopes}
    (resolved : (resolveScope graph id none cancellation).1 = .ok fresh) :
    ∃ scopes,
      (resolveScope graph id (some (InspectionCache.afterRequests graph requests).scopes)
        cancellation).1 = .ok scopes ∧
      id ∈ fresh ∧ scopes[id]? = fresh[id]? ∧
      ∀ (other : NodeId) (scope : Scope),
        (InspectionCache.afterRequests graph requests).scopes[other]? = some scope →
        scopes[other]? = some scope := by
  have freshFacts := resolveScope_faithful tree (by simp) resolved
  have cached := InspectionCache.afterRequests_keeps tree.faithful requests
  generalize (InspectionCache.afterRequests graph requests).scopes = cache at cached ⊢
  obtain ⟨scopes, found⟩ :
      ∃ scopes, (resolveScope graph id (some cache) cancellation).1 = .ok scopes := by
    by_cases known : id ∈ cache
    · exact ⟨cache, by simp [resolveScope, known]⟩
    · obtain ⟨final, inspected⟩ := resolveScope_ok_of_none resolved known
      exact ⟨cache ∪ final.delta, by simp [resolveScope, known, inspected]⟩
  have facts := resolveScope_faithful tree (by simpa using cached) found
  refine ⟨scopes, found, freshFacts.known, ?_, ?_⟩
  · rw [facts.scope facts.known, freshFacts.scope freshFacts.known]
  · intro other scope held
    rw [facts.scope (facts.kept other (by simp [Std.ExtTreeMap.mem_iff_isSome_getElem?, held])),
      cached other scope held]

/-- The formula `let x = 1, y = each [a = x, a = _] in y`. -/
def letSample : Graph :=
  (show Build NodeId from do
    let one ← Builder.numericLiteral "1"
    let x ← Builder.identifierExpression "x"
    let item ← Builder.identifierExpression "_"
    let record ← Builder.recordExpression [("a", x), ("a", item)]
    let each ← Builder.eachExpression record
    let y ← Builder.identifierExpression "y"
    Builder.letExpression [("x", one), ("y", each)] y).run .empty |>.2.graph

/-- A cache that has typed the whole formula, resolved one of its values and refused to look at a
node that is not there. The node asked for is not in it, but all nodes above it are. -/
theorem letSample_transparent :
    ∃ fresh, (resolveScope letSample 4 none .never).1 = .ok fresh ∧ ∃ scopes,
      (resolveScope letSample 4
        (some (InspectionCache.afterRequests letSample
          [.infer 35 100 .never, .resolve 3 .never, .infer 99 100 .never]).scopes)
        .never).1 = .ok scopes ∧
      4 ∈ fresh ∧ scopes[4]? = fresh[4]? ∧
      ∀ (other : NodeId) (scope : Scope),
        (InspectionCache.afterRequests letSample
          [.infer 35 100 .never, .resolve 3 .never, .infer 99 100 .never]).scopes[other]? =
          some scope →
        scopes[other]? = some scope := by
  have succeeds : (resolveScope letSample 4 none .never).1.isOk := by decide +kernel
  cases resolved : (resolveScope letSample 4 none .never).1 with
  | error failure => simp [resolved, Except.isOk, Except.toBool] at succeeds
  | ok fresh => exact ⟨fresh, rfl, resolveScope_afterRequests (by decide +kernel) _ resolved⟩

end FormulaInspection
