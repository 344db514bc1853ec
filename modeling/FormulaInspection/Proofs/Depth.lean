import FormulaInspection.Proofs.Evaluation
import FormulaInspection.Proofs.LookUp

/-!
How deep an evaluation is nested. The nodes in progress have different ids, all of them ids that
nodes of the graph bear, so there are never more of them than the graph has nodes.
-/

namespace FormulaInspection

def enteredAt : List NodeId → NodeId → Option Nat
  | [], _ => none
  | top :: rest, id => if top = id then some rest.length else enteredAt rest id

theorem enteredAt_eq_none {stack : List NodeId} {id : NodeId} :
    enteredAt stack id = none ↔ id ∉ stack := by
  induction stack with
  | nil => simp [enteredAt]
  | cons top rest ih =>
      by_cases same : top = id
      · simp [enteredAt, same]
      · simp [enteredAt, same, ih, Ne.symm same]

theorem enteredAt_lt {stack : List NodeId} {id : NodeId} {depth : Nat}
    (entered : enteredAt stack id = some depth) : depth < stack.length := by
  induction stack with
  | nil => simp [enteredAt] at entered
  | cons top rest ih =>
      unfold enteredAt at entered
      simp only [List.length_cons]
      split at entered
      · have same := Option.some.inj entered
        omega
      · have earlier := ih entered
        omega

namespace Graph

variable {graph : Graph}

def Borne (graph : Graph) (id : NodeId) : Prop :=
  ∃ node, graph.Stored node ∧ node.id = id

theorem length_le_size_of_borne {ids : List NodeId} (unique : ids.Nodup)
    (borne : ∀ id ∈ ids, graph.Borne id) : ids.length ≤ graph.size := by
  have inside : ids ⊆ graph.storedIds.map fun key => ((graph.node? key).map Node.id).getD key := by
    intro id member
    obtain ⟨node, ⟨key, found⟩, rfl⟩ := borne id member
    exact List.mem_map.mpr ⟨key, mem_storedIds.mpr (by simp [found]), by simp [found]⟩
  have bound := (List.subperm_of_subset unique inside).length_le
  rwa [List.length_map, length_storedIds] at bound

/-- The state of an evaluation that is inside the nodes of `stack`. -/
structure Tracks (graph : Graph) (stack : List NodeId) (state : Progress) : Prop where
  depth : state.depth = stack.length
  entered : ∀ id : NodeId, state.inProgress[id]? = enteredAt stack id
  unique : stack.Nodup
  borne : ∀ id ∈ stack, graph.Borne id

theorem tracks_initial (cancellation : Cancellation) : graph.Tracks [] (.initial cancellation) where
  depth := rfl
  entered := by simp [Progress.initial, enteredAt]
  unique := List.nodup_nil
  borne := by simp

namespace Tracks

variable {stack : List NodeId} {state inner : Progress}

theorem congr {other : Progress} (tracks : graph.Tracks stack state)
    (sameDepth : other.depth = state.depth) (sameNodes : other.inProgress = state.inProgress) :
    graph.Tracks stack other where
  depth := sameDepth.trans tracks.depth
  entered := by rw [sameNodes]; exact tracks.entered
  unique := tracks.unique
  borne := tracks.borne

theorem not_mem {id : NodeId} (tracks : graph.Tracks stack state)
    (fresh : state.inProgress[id]? = none) : id ∉ stack := by
  rw [tracks.entered] at fresh
  exact enteredAt_eq_none.mp fresh

theorem enter {node : Node} (tracks : graph.Tracks stack state) (stored : graph.Stored node)
    (fresh : node.id ∉ stack) : graph.Tracks (node.id :: stack) (state.enter node.id) where
  depth := by simp [Progress.enter, tracks.depth]
  entered := by
    intro id
    simp only [Progress.enter, Std.ExtTreeMap.getElem?_insert, Std.compare_eq_iff_eq, enteredAt,
      tracks.depth, tracks.entered]
  unique := List.nodup_cons.mpr ⟨fresh, tracks.unique⟩
  borne := by
    intro id member
    rcases List.mem_cons.mp member with rfl | inside
    · exact ⟨node, stored, rfl⟩
    · exact tracks.borne id inside

theorem leave {id : NodeId} (before : Progress) (result : Except InspectionError Ty)
    (tracks : graph.Tracks (id :: stack) inner) :
    graph.Tracks stack (before.leave id result inner).2 := by
  obtain ⟨types, left⟩ := before.leave_eq id result inner
  rw [left]
  refine ⟨?_, ?_, (List.nodup_cons.mp tracks.unique).2, ?_⟩
  · simp [tracks.depth]
  · intro other
    simp only [Std.ExtTreeMap.getElem?_erase, tracks.entered, Std.compare_eq_iff_eq, enteredAt]
    split
    · rename_i same
      rw [← same]
      exact (enteredAt_eq_none.mpr (List.nodup_cons.mp tracks.unique).1).symm
    · rfl
  · exact fun other member => tracks.borne other (List.mem_cons_of_mem _ member)

theorem room {node : Node} (tracks : graph.Tracks stack state) (stored : graph.Stored node)
    (fresh : node.id ∉ stack) : stack.length < graph.size := by
  have bound := length_le_size_of_borne (tracks.enter stored fresh).unique
    (tracks.enter stored fresh).borne
  simp only [List.length_cons] at bound
  omega

end Tracks

end Graph

namespace Evaluator

variable {evaluator : Evaluator}

/-- What an evaluation inside the nodes of `stack` leaves behind: it is inside the same nodes, or it
has failed for another reason than its depth. -/
def Bounded {α : Type} (graph : Graph) (stack : List NodeId) (outcome : Outcome α) : Prop :=
  match outcome.1 with
  | .ok _ => graph.Tracks stack outcome.2
  | .error failure => ∀ id limit, failure ≠ .depthExceeded id limit

theorem run_bounded {stack : List NodeId} {infer : Node → Progress → Outcome Ty}
    (bounded : ∀ node state, evaluator.graph.Stored node → evaluator.graph.Tracks stack state →
      Bounded evaluator.graph stack (infer node state))
    {α : Type} {post : α → Prop} {demand : Demand α} {state : Progress}
    (keeps : demand.Keeps (evaluator.graph.ruleContract True) post)
    (tracks : evaluator.graph.Tracks stack state) :
    Bounded evaluator.graph stack (evaluator.run infer demand state) := by
  induction demand generalizing state with
  | answer value => exact tracks
  | fail failure =>
      intro id limit same
      obtain ⟨_, defect⟩ := keeps
      rw [same] at defect
      exact defect
  | typeOf node next ih =>
      have asked := bounded node state keeps.1 tracks
      unfold run
      cases outcome : infer node state with
      | mk result after =>
          rw [outcome] at asked
          cases result with
          | ok ty => exact ih ty (keeps.2 ty) asked
          | error failure => exact asked
  | binding node name next ih =>
      obtain ⟨scopes, cancellation, frame⟩ := evaluator.lookUp_frame node name state
      unfold run
      cases outcome : evaluator.lookUp node name state with
      | mk result after =>
          rw [outcome] at frame
          cases result with
          | ok item? =>
              refine ih item? (keeps.2 item? fun noFault => absurd trivial noFault) ?_
              simp only at frame
              subst frame
              exact tracks.congr rfl rfl
          | error failure =>
              intro id limit same
              rcases lookUp_failure (fun noFault => absurd trivial noFault)
                (fun noFault => absurd trivial noFault) outcome with
                (⟨_, cancelled⟩ | ⟨_, defect⟩) | missing
              · simp [cancelled] at same
              · rw [same] at defect
                exact defect
              · simp [missing] at same
  | poll next ih =>
      unfold run
      cases go : state.cancellation.poll with
      | ok cancellation => exact ih keeps (tracks.congr rfl rfl)
      | error failure =>
          intro id limit same
          simp [(Cancellation.poll_error go).2] at same

theorem inferWithin_bounded {levels : Nat} {stack : List NodeId} {node : Node} {state : Progress}
    (stored : evaluator.graph.Stored node) (tracks : evaluator.graph.Tracks stack state)
    (enough : evaluator.graph.size ≤ levels + stack.length) :
    Bounded evaluator.graph stack (evaluator.inferWithin levels node state) := by
  induction levels using Nat.strongRecOn generalizing stack node state with
  | ind levels ih =>
      have answers := evaluator.inferWithin_answers levels node state
      generalize evaluator.inferWithin levels node state = outcome at answers ⊢
      cases answers with
      | stopped go =>
          intro id limit same
          simp [(Cancellation.poll_error go).2] at same
      | known _ _ => exact tracks.congr rfl rfl
      | cut _ _ _ => exact tracks.congr rfl rfl
      | tooDeep _ _ fresh =>
          have room := tracks.room stored (tracks.not_mem fresh)
          omega
      | @entered levels cancellation result inner _ _ fresh ran =>
          have polledTracks : evaluator.graph.Tracks stack (state.polled cancellation) :=
            tracks.congr rfl rfl
          have inside := run_bounded
            (fun other between otherStored tracking =>
              ih levels (Nat.lt_succ_self levels) otherStored tracking
                (by simp only [List.length_cons]; omega))
            (Graph.typingRule_keeps (fun noFault => absurd trivial noFault) stored)
            (polledTracks.enter stored (tracks.not_mem fresh))
          rw [ran] at inside
          cases result with
          | error failure => exact inside
          | ok ty =>
              have left := Graph.Tracks.leave (state.polled cancellation) (.ok ty) inside
              rw [Progress.leave_ok] at left ⊢
              exact left

end Evaluator

end FormulaInspection
