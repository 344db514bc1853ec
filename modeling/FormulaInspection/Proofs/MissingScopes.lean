import FormulaInspection.Command.Inspect
import FormulaInspection.Proofs.Evaluation
import FormulaInspection.Proofs.LookUp
import FormulaInspection.Proofs.PositionFilter

/-!
No inspection misses a scope. A resolution that comes to its end has given a scope to every node on
its way. As long as nodes are stored under their own ids, the node that was asked for is one of
them, so neither a look-up nor the command finds a node without a scope.
-/

namespace FormulaInspection

variable {α β : Type}

def FindsScopes (result : Except InspectionError α) : Prop :=
  ∀ id, result ≠ .error (.missingScope id)

theorem InspectionError.IsDefect.findsScopes {failure : InspectionError}
    (defect : failure.IsDefect) : FindsScopes (.error failure : Except InspectionError α) := by
  intro id failed
  obtain rfl := Except.error.inj failed
  exact defect

theorem FindsScopes.bind {result : Except InspectionError α}
    {next : α → Except InspectionError β} (first : FindsScopes result)
    (rest : ∀ value, FindsScopes (next value)) : FindsScopes (result >>= next) := by
  cases result with
  | ok value => exact rest value
  | error failure =>
      intro id failed
      exact first id (congrArg _ (Except.error.inj failed))

theorem findsScopes_ok (value : α) : FindsScopes (.ok value) :=
  fun _ => nofun

namespace Evaluator

variable {evaluator : Evaluator} (keyed : evaluator.graph.Keyed)

theorem andThen_findsScopes {outcome : Outcome α} {next : α → Progress → Outcome β}
    (asked : FindsScopes outcome.1) (onward : ∀ value state, FindsScopes (next value state).1) :
    FindsScopes (Outcome.andThen outcome next).1 := by
  obtain ⟨result, after⟩ := outcome
  cases result with
  | ok value => exact onward value after
  | error failure =>
      intro id failed
      exact asked id (congrArg _ (Except.error.inj failed))

theorem stopped_findsScopes {cancellation : Cancellation} {failure : InspectionError}
    (stopped : cancellation.poll = .error failure) :
    FindsScopes (.error failure : Except InspectionError α) := by
  rw [(Cancellation.poll_error stopped).2]
  exact fun _ => nofun

include keyed

theorem lookUp_findsScopes (id : NodeId) (name : String) (state : Progress) :
    FindsScopes (evaluator.lookUp id name state).1 := by
  intro missing failed
  have outcome : evaluator.lookUp id name state =
      (.error (.missingScope missing), (evaluator.lookUp id name state).2) := Prod.ext failed rfl
  rcases lookUp_defect keyed (fun noFault => absurd trivial noFault)
    (fun noFault => absurd trivial noFault) outcome with ⟨_, cancelled⟩ | ⟨_, defect⟩
  · cases cancelled
  · exact defect

theorem run_findsScopes {infer : Node → Progress → Outcome Ty}
    (inferred : ∀ node state, evaluator.graph.Stored node → FindsScopes (infer node state).1)
    {post : α → Prop} {demand : Demand α} {state : Progress}
    (keeps : demand.Keeps (evaluator.graph.ruleContract True) post) :
    FindsScopes (evaluator.run infer demand state).1 := by
  induction demand generalizing state with
  | answer value => exact findsScopes_ok value
  | fail failure => exact keeps.2.findsScopes
  | typeOf node next ih =>
      rw [run_typeOf]
      exact andThen_findsScopes (inferred node state keeps.1) fun ty _ => ih ty (keeps.2 ty)
  | binding id name next ih =>
      rw [run_binding]
      refine andThen_findsScopes (lookUp_findsScopes keyed id name state) fun item? _ => ?_
      exact ih item? (keeps.2 item? fun noFault => absurd trivial noFault)
  | poll next ih =>
      unfold run
      cases go : state.cancellation.poll with
      | ok cancellation => exact ih keeps
      | error failure => exact stopped_findsScopes go

theorem inferWithin_findsScopes {levels : Nat} {node : Node} {state : Progress}
    (stored : evaluator.graph.Stored node) :
    FindsScopes (evaluator.inferWithin levels node state).1 := by
  induction levels using Nat.strongRecOn generalizing node state with
  | ind levels ih =>
      have answers := evaluator.inferWithin_answers levels node state
      generalize evaluator.inferWithin levels node state = outcome at answers ⊢
      cases answers with
      | stopped go => exact stopped_findsScopes go
      | known _ _ => exact findsScopes_ok _
      | cut _ _ _ => exact findsScopes_ok _
      | tooDeep _ _ _ => exact fun _ => nofun
      | @entered levels cancellation result inner _ _ _ ran =>
          have inside := @run_findsScopes Ty evaluator keyed (evaluator.inferWithin levels)
            (fun other between otherStored => ih levels (Nat.lt_succ_self levels) otherStored)
            (fun _ => True) (evaluator.graph.typingRule node)
            ((state.polled cancellation).enter node.id)
            (Graph.typingRule_keeps (fun noFault => absurd trivial noFault) stored)
          rw [ran] at inside
          obtain ⟨types, left⟩ := (state.polled cancellation).leave_eq node.id result inner
          rw [left]
          exact inside

end Evaluator

theorem inferType_findsScopes {graph : Graph} (keyed : graph.Keyed) (id : NodeId) (maxDepth : Nat)
    (cache : InspectionCache) (cancellation : Cancellation) :
    FindsScopes (inferType graph id maxDepth cache cancellation).answer := by
  cases read : graph.node id with
  | ok node =>
      intro missing failed
      rw [inferType_answer read] at failed
      have stored : graph.Stored node := ⟨id, Graph.node_eq_ok.mp read⟩
      exact @Evaluator.inferWithin_findsScopes ⟨graph, maxDepth, cache.types, cache.scopes⟩ keyed
        maxDepth node (.initial cancellation) stored missing failed
  | error failure =>
      have defect := (Graph.node_meets fun noFault => absurd trivial noFault).defect read
      rw [inferType_missing read]
      exact defect.2.findsScopes

theorem resolveScope_reaches {graph : Graph} (keyed : graph.Keyed) {id : NodeId} {scopes : Scopes}
    (resolved : (resolveScope graph id none .never).1 = .ok scopes) :
    ∃ path, graph.ancestry id = .ok path ∧ (∀ node ∈ path, node.id ∈ scopes) ∧ id ∈ scopes := by
  rcases resolveScope_eq_ok resolved with ⟨known, -⟩ | ⟨-, final, inspected, rfl⟩
  · simp at known
  · obtain ⟨path, climbed, reached⟩ := Resolver.inspect_reaches inspected rfl
    obtain ⟨node, above, rfl, found, -⟩ := Graph.ancestry_eq_ok climbed
    have held : ∀ other ∈ node :: above, other.id ∈ (none : Option Scopes).getD ∅ ∪ final.delta :=
      fun other member => Std.ExtTreeMap.mem_union_iff.mpr (Or.inr (reached other member))
    exact ⟨node :: above, climbed, held, keyed found ▸ held node List.mem_cons_self⟩

theorem inspectScope_eq_error_iff {graph : Graph} (keyed : graph.Keyed) {id : NodeId}
    {filter : Bool} {failure : InspectionError} :
    inspectScope graph id filter = .error failure ↔
      (resolveScope graph id none .never).1 = .error failure := by
  cases resolved : (resolveScope graph id none .never).1 with
  | error reason => simp [inspectScope, resolved, bind, Except.bind]
  | ok scopes =>
      obtain ⟨path, climbed, held, own⟩ := resolveScope_reaches keyed resolved
      rw [Std.ExtTreeMap.mem_iff_isSome_getElem?] at own
      obtain ⟨scope, found⟩ := Option.isSome_iff_exists.mp own
      cases filter with
      | false => simp [inspectScope, resolved, bind, Except.bind, pure, Except.pure, found]
      | true =>
          have filtered : filterByPosition graph scopes path = .ok (filteredAlong graph path scopes) :=
            filterByPosition_eq fun node member =>
              Std.ExtTreeMap.contains_iff_mem.mpr (held node member)
          have visible : (filteredAlong graph path scopes)[id]? = scopes[id]?.map _ :=
            Std.ExtTreeMap.getElem?_map
          rw [found] at visible
          simp [inspectScope, resolved, bind, Except.bind, pure, Except.pure, climbed, filtered,
            visible]

theorem resolveScope_findsScopes (graph : Graph) (id : NodeId) :
    FindsScopes (resolveScope graph id none .never).1 := by
  unfold resolveScope
  simp only
  split
  · exact findsScopes_ok _
  · split
    · exact findsScopes_ok _
    · rename_i inspected
      rcases Resolver.inspect_failure (fun noFault => absurd trivial noFault)
        (fun noFault => absurd trivial noFault) inspected with ⟨impatient, _⟩ | ⟨_, defect⟩
      · exact absurd rfl impatient
      · exact defect.findsScopes

theorem ancestry_findsScopes (graph : Graph) (id : NodeId) : FindsScopes (graph.ancestry id) := by
  intro missing failed
  exact ((Graph.ancestry_meets (fun noFault => absurd trivial noFault)
    fun noFault => absurd trivial noFault).defect failed).2

theorem inspect_findsScopes {graph : Graph} (keyed : graph.Keyed) (options : Options) :
    FindsScopes (inspect graph options) := by
  unfold inspect
  simp only
  split
  · refine FindsScopes.bind (fun missing failed => ?_) fun _ => findsScopes_ok _
    exact resolveScope_findsScopes graph options.node missing
      ((inspectScope_eq_error_iff keyed).mp failed)
  · have typed := inferType_findsScopes keyed options.node options.maxDepth .empty .never
    exact (typed.bind fun _ => findsScopes_ok _).bind fun _ => findsScopes_ok _
  · have climbed := ancestry_findsScopes graph options.node
    exact (climbed.bind fun _ => findsScopes_ok _).bind fun _ => findsScopes_ok _

/-- However the nodes of a graph are linked, no inference and no command fails for want of a scope.
Showing a scope, filtered or not, fails only where the resolution itself does. -/
theorem missingScope_unreachable {graph : Graph} (keyed : graph.Keyed) :
    (∀ id maxDepth cache cancellation missing,
      (inferType graph id maxDepth cache cancellation).answer ≠ .error (.missingScope missing)) ∧
    ∀ options : Options,
      (∀ missing, inspect graph options ≠ .error (.missingScope missing)) ∧
      (options.mode = .scope → ∀ failure, inspect graph options = .error failure ↔
        (resolveScope graph options.node none .never).1 = .error failure) := by
  refine ⟨inferType_findsScopes keyed, fun options => ⟨inspect_findsScopes keyed options, ?_⟩⟩
  intro mode failure
  rw [← inspectScope_eq_error_iff keyed, inspect, mode]
  cases inspectScope graph options.node options.filter <;>
    simp [bind, Except.bind, pure, Except.pure]

/-- A graph whose links do not go together: a child that is not there, a child whose parent does not
know of it, and a node that is its own parent. -/
def tangledSample : Graph where
  astNodes :=
    ((((∅ : IdMap AstNode).insert 0 ⟨0, .eachExpression, none, .none⟩).insert
      1 ⟨1, .identifier, some Slot.eachBody, .identifier "_"⟩).insert
      2 ⟨2, .identifier, none, .identifier "x"⟩).insert
      3 ⟨3, .identifier, some Slot.eachBody, .identifier "_"⟩
  contextNodes := ∅
  parents := (((∅ : IdMap NodeId).insert 1 0).insert 2 2).insert 3 0
  children := (∅ : IdMap (List NodeId)).insert 0 [1, 9]
  leaves := ∅

theorem tangledSample_reaches :
    tangledSample.Keyed ∧
      (∀ missing,
        (inferType tangledSample 3 512 .empty .never).answer ≠ .error (.missingScope missing)) ∧
      (∃ text, inspect tangledSample { mode := .scope, node := 3, filter := true } = .ok text) ∧
      inspect tangledSample { mode := .scope, node := 2, filter := true } =
        .error (.missingNode 2) := by
  have keyed : tangledSample.Keyed := by
    have own : ∀ id ∈ tangledSample.storedIds, ∀ node ∈ tangledSample.node? id, node.id = id := by
      decide +kernel
    intro id node found
    exact own id (Graph.mem_storedIds.mpr (by simp [found])) node found
  obtain ⟨infers, shows⟩ := missingScope_unreachable keyed
  have resolved : (resolveScope tangledSample 3 none .never).1.isOk := by decide +kernel
  refine ⟨keyed, infers 3 512 .empty .never, ?_, ?_⟩
  · cases shown : inspect tangledSample { mode := .scope, node := 3, filter := true } with
    | ok text => exact ⟨text, rfl⟩
    | error failure =>
        rw [((shows _).2 rfl failure).mp shown] at resolved
        cases resolved
  · refine ((shows { mode := .scope, node := 2, filter := true }).2 rfl _).mpr ?_
    have climbed : tangledSample.ancestry 2 = .error (.missingNode 2) := by decide +kernel
    simp [resolveScope, Resolver.inspect, Resolver.given?, climbed]

end FormulaInspection
