import FormulaInspection.Proofs.Ancestry
import FormulaInspection.Proofs.Questions
import FormulaInspection.Proofs.Resolution

/-!
Whether a resolution comes to its end, and why not if it does not. This depends on the graph and on
the host alone, never on the scopes known before.
-/

namespace FormulaInspection

namespace Cancellation

@[simp] theorem never_poll : poll .never = .ok .never := rfl

theorem poll_error {cancellation : Cancellation} {failure : InspectionError}
    (stopped : cancellation.poll = .error failure) :
    cancellation ≠ .never ∧ failure = .cancelled := by
  unfold poll at stopped
  split at stopped
  · cases stopped
  · exact ⟨by simp, (Except.error.inj stopped).symm⟩
  · cases stopped

theorem poll_never {cancellation left : Cancellation} (never : cancellation = .never)
    (polled : cancellation.poll = .ok left) : left = .never := by
  subst never
  exact (Except.ok.inj polled).symm

end Cancellation

def NodeKind.bindsNames : NodeKind → Bool
  | .eachExpression | .functionExpression | .letExpression | .recordExpression | .recordLiteral
  | .section => true
  | _ => false

namespace Graph

variable {graph : Graph} {fault : Prop}

def bindingReads (graph : Graph) (node : Node) : Except InspectionError Unit :=
  match node.kind with
  | .eachExpression => (graph.requiredChild? node Slot.eachBody).map fun _ => ()
  | .functionExpression => do
    match ← graph.requiredChild? node Slot.functionBody with
    | none => return ()
    | some _ => (graph.functionSignature node).map fun _ => ()
  | _ => (graph.ownedPairs node).map fun _ => ()

def walkReads (graph : Graph) :
    List Node → Cancellation → Except InspectionError Unit × Cancellation
  | [], cancellation => (.ok (), cancellation)
  | node :: rest, cancellation =>
    match cancellation.poll with
    | .error failure => (.error failure, cancellation)
    | .ok cancellation =>
      match graph.bindingReads node with
      | .ok () => graph.walkReads rest cancellation
      | .error failure => (.error failure, cancellation)

theorem bindingReads_meets (sound : ¬fault → graph.ShapeCorrect) {node : Node}
    (stored : graph.Stored node) : Meets fault (fun _ => True) (graph.bindingReads node) := by
  unfold bindingReads
  split
  · rename_i kind
    exact (openRequired?_meets sound stored fun _ => by simp [kind, NodeKind.requiredSlots]).map
      fun _ _ => trivial
  · rename_i kind
    refine (openRequired?_meets sound stored fun _ => by simp [kind, NodeKind.requiredSlots]).bind
      fun body? _ => ?_
    cases body? with
    | none => trivial
    | some body =>
        exact (functionSignature_meets sound stored (Or.inl kind)).map fun _ _ => trivial
  · exact (ownedPairs_meets sound stored).map fun _ _ => trivial

theorem bindingReads_other {node : Node} (binds : node.kind.bindsNames = false) :
    graph.bindingReads node = .ok () := by
  unfold bindingReads ownedPairs
  cases kind : node.kind <;> simp_all [NodeKind.bindsNames, Except.map]

theorem walkReads_never (path : List Node) : (graph.walkReads path .never).2 = .never := by
  induction path with
  | nil => rfl
  | cons node rest ih =>
      simp only [walkReads, Cancellation.poll]
      split
      · exact ih
      · rfl

theorem walkReads_cutoff (path : List Node) (cancellation : Cancellation) :
    (graph.walkReads path cancellation).1 = (graph.walkReads path .never).1 ∨
      cancellation ≠ .never ∧ (graph.walkReads path cancellation).1 = .error .cancelled := by
  induction path generalizing cancellation with
  | nil => exact Or.inl rfl
  | cons node rest ih =>
      cases go : cancellation.poll with
      | error failure =>
          obtain ⟨impatient, rfl⟩ := Cancellation.poll_error go
          exact Or.inr ⟨impatient, by simp [walkReads, go]⟩
      | ok polled =>
          cases reads : graph.bindingReads node with
          | error failure => exact Or.inl (by simp [walkReads, go, reads])
          | ok value =>
              simp only [walkReads, go, reads, Cancellation.never_poll]
              rcases ih polled with same | ⟨impatient, stopped⟩
              · exact Or.inl same
              · exact Or.inr ⟨fun never => impatient (Cancellation.poll_never never go), stopped⟩

theorem walkReads_ok {path : List Node}
    (reads : ∀ node ∈ path, graph.bindingReads node = .ok ()) :
    (graph.walkReads path .never).1 = .ok () := by
  induction path with
  | nil => rfl
  | cons node rest ih =>
      simp only [walkReads, Cancellation.never_poll, reads node (by simp)]
      exact ih fun other member => reads other (List.mem_cons_of_mem _ member)

theorem walkReads_failure (sound : ¬fault → graph.ShapeCorrect) {path : List Node}
    {cancellation : Cancellation} {failure : InspectionError}
    (stored : ∀ node ∈ path, graph.Stored node)
    (failed : (graph.walkReads path cancellation).1 = .error failure) :
    cancellation ≠ .never ∧ failure = .cancelled ∨ fault ∧ failure.IsDefect := by
  induction path generalizing cancellation with
  | nil => simp [walkReads] at failed
  | cons node rest ih =>
      unfold walkReads at failed
      cases go : cancellation.poll with
      | error stop =>
          rw [go] at failed
          obtain rfl := Except.error.inj failed
          exact Or.inl (Cancellation.poll_error go)
      | ok polled =>
          rw [go] at failed
          cases reads : graph.bindingReads node with
          | error defect =>
              simp only [reads, Except.error.injEq] at failed
              subst failed
              exact Or.inr ((bindingReads_meets sound (stored node (by simp))).defect reads)
          | ok value =>
              simp only [reads] at failed
              rcases ih (fun other member => stored other (List.mem_cons_of_mem _ member)) failed with
                ⟨impatient, cancelled⟩ | defect
              · exact Or.inl ⟨fun never => impatient (Cancellation.poll_never never go), cancelled⟩
              · exact Or.inr defect

theorem nodesAbove_defect {steps : Nat} {id : NodeId} {failure : InspectionError}
    (failed : graph.nodesAbove steps id = .error failure) : failure.IsDefect := by
  obtain ⟨missing, rfl, -⟩ := nodesAbove_eq_error failed
  trivial

theorem ancestry_meets (sound : ¬fault → graph.ShapeCorrect) {id : NodeId}
    (rootStored : ¬fault → (graph.node? id).isSome) :
    Meets fault (fun path => ∀ node ∈ path, graph.Stored node) (graph.ancestry id) := by
  refine (node_meets rootStored).bind fun node found => ?_
  cases climbed : graph.nodesAbove graph.size id with
  | error failure =>
      refine ⟨?_, nodesAbove_defect climbed⟩
      by_contra noFault
      obtain ⟨above, path, short⟩ :=
        (sound noFault).exists_rootPath (show (graph.node? id).isSome by simp [found])
      simp [nodesAbove_of_rootPath path short] at climbed
  | ok above =>
      intro other member
      rcases List.mem_cons.mp member with rfl | higher
      · exact ⟨id, found⟩
      · exact (rootPath_of_nodesAbove climbed).stored higher

end Graph

namespace Resolver

variable {resolver : Resolver}

theorem visit_failure (node : Node) (next? : Option Node) (delta : Scopes) :
    (resolver.visit node next? delta).failure? =
      match resolver.graph.bindingReads node with
      | .ok () => none
      | .error failure => some failure := by
  unfold visit Graph.bindingReads
  split
  · rename_i kind
    simp only [kind, visitEach]
    cases resolver.graph.requiredChild? node Slot.eachBody with
    | error failure => rfl
    | ok body? => cases body? <;> rfl
  · rename_i kind
    simp only [kind, visitFunction]
    cases resolver.graph.requiredChild? node Slot.functionBody with
    | error failure => rfl
    | ok body? =>
        cases body? with
        | none => rfl
        | some body => cases resolver.graph.functionSignature node <;> rfl
  · rename_i kind
    simp only [kind, Graph.ownedPairs]
    cases resolver.graph.letPairs node <;> rfl
  · rename_i kind
    simp only [kind, Graph.ownedPairs]
    cases resolver.graph.recordPairs node <;> rfl
  · rename_i kind
    simp only [kind, Graph.ownedPairs]
    cases resolver.graph.recordPairs node <;> rfl
  · rename_i kind
    simp only [kind, Graph.ownedPairs]
    cases resolver.graph.sectionPairs node <;> rfl
  · rename_i notEach notFunction notLet notRecord notLiteral notSection
    simp only [Graph.ownedPairs_other resolver.graph notLet notRecord notLiteral notSection]
    rfl

theorem walk_outcome (path : List Node) (state : Resolution) :
    ((resolver.walk path state).1, (resolver.walk path state).2.cancellation) =
      resolver.graph.walkReads path state.cancellation := by
  induction path generalizing state with
  | nil => rfl
  | cons node rest ih =>
      unfold walk Graph.walkReads
      cases state.cancellation.poll with
      | error failure => rfl
      | ok cancellation =>
          have failure := @visit_failure resolver node rest.head? state.delta
          cases visited : resolver.visit node rest.head? state.delta with
          | mk delta failure? =>
              rw [visited] at failure
              cases reads : resolver.graph.bindingReads node with
              | ok value =>
                  simp only [reads] at failure
                  subst failure
                  exact ih _
              | error error =>
                  simp only [reads] at failure
                  subst failure
                  rfl

/-- Whether a resolution of an unknown node comes to its end does not depend on the layers that are
given, as long as none of them holds the node. -/
theorem inspect_outcome {root : NodeId} (unknown : resolver.given? root = none)
    (cancellation : Cancellation) :
    ((resolver.inspect root ⟨∅, cancellation⟩).1,
      (resolver.inspect root ⟨∅, cancellation⟩).2.cancellation) =
      match cancellation.poll with
      | .error failure => (.error failure, cancellation)
      | .ok polled =>
        match resolver.graph.ancestry root with
        | .error failure => (.error failure, polled)
        | .ok path => resolver.graph.walkReads path.reverse polled := by
  unfold inspect
  cases cancellation.poll with
  | error failure => rfl
  | ok polled =>
      simp only [Std.ExtTreeMap.contains_empty, unknown, Option.isSome_none, Bool.or_false,
        Bool.false_eq_true, if_false]
      cases resolver.graph.ancestry root with
      | error failure => rfl
      | ok path => exact walk_outcome path.reverse ⟨∅, polled⟩

theorem inspect_never (root : NodeId) :
    (resolver.inspect root ⟨∅, .never⟩).2.cancellation = .never := by
  cases known : resolver.given? root with
  | some scope => simp [inspect, known, Cancellation.poll]
  | none =>
      have left := congrArg Prod.snd (inspect_outcome known .never)
      simp only [Cancellation.poll] at left
      rw [left]
      split
      · rfl
      · exact Graph.walkReads_never _

theorem inspect_cutoff {root : NodeId} (unknown : resolver.given? root = none)
    (cancellation : Cancellation) :
    (resolver.inspect root ⟨∅, cancellation⟩).1 =
        (Resolver.inspect ⟨resolver.graph, []⟩ root ⟨∅, .never⟩).1 ∨
      cancellation ≠ .never ∧ (resolver.inspect root ⟨∅, cancellation⟩).1 = .error .cancelled := by
  have answer := congrArg Prod.fst (inspect_outcome unknown cancellation)
  have fresh := congrArg Prod.fst (@inspect_outcome ⟨resolver.graph, []⟩ root rfl .never)
  simp only [Cancellation.never_poll] at answer fresh
  rw [answer, fresh]
  cases go : cancellation.poll with
  | error failure =>
      obtain ⟨impatient, rfl⟩ := Cancellation.poll_error go
      exact Or.inr ⟨impatient, rfl⟩
  | ok polled =>
      cases resolver.graph.ancestry root with
      | error failure => exact Or.inl rfl
      | ok path =>
          rcases Graph.walkReads_cutoff path.reverse polled with same | ⟨impatient, stopped⟩
          · exact Or.inl same
          · exact Or.inr ⟨fun never => impatient (Cancellation.poll_never never go), stopped⟩

theorem inspect_failure {fault : Prop} (sound : ¬fault → resolver.graph.ShapeCorrect)
    {root : NodeId} {cancellation : Cancellation} {failure : InspectionError} {final : Resolution}
    (rootStored : ¬fault → (resolver.graph.node? root).isSome)
    (failed : resolver.inspect root ⟨∅, cancellation⟩ = (.error failure, final)) :
    cancellation ≠ .never ∧ failure = .cancelled ∨ fault ∧ failure.IsDefect := by
  cases known : resolver.given? root with
  | some scope =>
      simp only [inspect, known, Option.isSome_some, Bool.or_true, if_true] at failed
      cases go : cancellation.poll with
      | error stop =>
          simp only [go, Prod.mk.injEq, Except.error.injEq] at failed
          rw [← failed.1]
          exact Or.inl (Cancellation.poll_error go)
      | ok polled => simp [go] at failed
  | none =>
      have outcome := inspect_outcome known cancellation
      rw [failed] at outcome
      cases go : cancellation.poll with
      | error stop =>
          simp only [go, Prod.mk.injEq, Except.error.injEq] at outcome
          rw [outcome.1]
          exact Or.inl (Cancellation.poll_error go)
      | ok polled =>
          simp only [go] at outcome
          have climbs := Graph.ancestry_meets sound rootStored
          cases climbed : resolver.graph.ancestry root with
          | error defect =>
              simp only [climbed, Prod.mk.injEq, Except.error.injEq] at outcome
              rw [outcome.1]
              exact Or.inr (climbs.defect climbed)
          | ok path =>
              simp only [climbed] at outcome
              have walked := (congrArg Prod.fst outcome).symm
              rcases Graph.walkReads_failure sound (fun node member =>
                climbs.value climbed node (List.mem_reverse.mp member)) walked with
                ⟨impatient, cancelled⟩ | defect
              · exact Or.inl ⟨fun never => impatient (Cancellation.poll_never never go), cancelled⟩
              · exact Or.inr defect

end Resolver

end FormulaInspection
