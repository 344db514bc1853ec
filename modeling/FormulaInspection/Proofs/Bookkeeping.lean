import FormulaInspection.Proofs.Evaluation
import FormulaInspection.Proofs.LookUp

/-!
The books that an evaluation keeps: the nodes it is inside of, the cycles it has met and the types
it remembers. Whether or not it fails, an evaluation is afterwards inside the same nodes as before,
has every cycle on record that was there, and has learnt types only of nodes that had none and that
it was not inside of.
-/

namespace FormulaInspection

def Noted (cycleDepth? : Option Nat) (depth : Nat) : Prop :=
  ∃ shallow, cycleDepth? = some shallow ∧ shallow ≤ depth

theorem noted_shallowest {left right : Option Nat} {depth : Nat} :
    Noted (Progress.shallowest left right) depth ↔ Noted left depth ∨ Noted right depth := by
  cases left with
  | none => simp [Noted, Progress.shallowest]
  | some first =>
      cases right with
      | none => simp [Noted, Progress.shallowest]
      | some second =>
          simp only [Noted, Progress.shallowest, Option.some.injEq, exists_eq_left']
          omega

theorem noted_filter {cycleDepth? : Option Nat} {depth bound : Nat}
    (noted : Noted cycleDepth? depth) (below : depth < bound) :
    Noted (cycleDepth?.filter (· < bound)) depth := by
  obtain ⟨shallow, rfl, short⟩ := noted
  have kept : shallow < bound := by omega
  exact ⟨shallow, by simp [kept], short⟩

theorem Progress.leave_types (before : Progress) {id other : NodeId}
    (result : Except InspectionError Ty) (inner : Progress) (different : id ≠ other) :
    (before.leave id result inner).2.types[other]? = inner.types[other]? := by
  cases result with
  | error failure => rfl
  | ok ty =>
      rw [leave_ok]
      simp only
      split
      · rfl
      · simp [Std.ExtTreeMap.getElem?_insert, different]

namespace Evaluator

variable {evaluator : Evaluator}

/-- The books between two moments of an evaluation that is inside the same nodes at both. -/
structure Continues (evaluator : Evaluator) (before after : Progress) : Prop where
  inProgress : after.inProgress = before.inProgress
  depth : after.depth = before.depth
  noted : ∀ {depth}, Noted before.cycleDepth? depth → Noted after.cycleDepth? depth
  types : ∀ id : NodeId, after.types[id]? = before.types[id]? ∨
    evaluator.knownType? before id = none ∧ before.inProgress[id]? = none

namespace Continues

theorem refl (state : Progress) : evaluator.Continues state state :=
  ⟨rfl, rfl, fun noted => noted, fun _ => Or.inl rfl⟩

theorem trans {before between after : Progress} (first : evaluator.Continues before between)
    (second : evaluator.Continues between after) : evaluator.Continues before after where
  inProgress := second.inProgress.trans first.inProgress
  depth := second.depth.trans first.depth
  noted := fun noted => second.noted (first.noted noted)
  types := by
    intro id
    rcases second.types id with same | ⟨unknown, outside⟩
    · rw [same]
      exact first.types id
    · rcases first.types id with same | learnt
      · have outsideBefore : before.inProgress[id]? = none := by
          rw [← first.inProgress]
          exact outside
        unfold knownType? at unknown ⊢
        rw [← same]
        exact Or.inr ⟨unknown, outsideBefore⟩
      · exact Or.inr learnt

theorem polled (state : Progress) (cancellation : Cancellation) :
    evaluator.Continues state (state.polled cancellation) :=
  ⟨rfl, rfl, fun noted => noted, fun _ => Or.inl rfl⟩

theorem andThen {α β : Type} {before : Progress} {outcome : Outcome α}
    {next : α → Progress → Outcome β} (asked : evaluator.Continues before outcome.2)
    (onward : ∀ value state, evaluator.Continues state (next value state).2) :
    evaluator.Continues before (Outcome.andThen outcome next).2 :=
  @Outcome.andThen_keeps α β (evaluator.Continues before) outcome next asked
    fun value state continues => continues.trans (onward value state)

end Continues

theorem lookUp_continues (id : NodeId) (name : String) (state : Progress) :
    evaluator.Continues state (evaluator.lookUp id name state).2 := by
  obtain ⟨scopes, cancellation, frame⟩ := evaluator.lookUp_frame id name state
  rw [frame]
  exact ⟨rfl, rfl, fun noted => noted, fun _ => Or.inl rfl⟩

theorem run_continues {infer : Node → Progress → Outcome Ty}
    (infers : ∀ node state, evaluator.Continues state (infer node state).2)
    {α : Type} (demand : Demand α) (state : Progress) :
    evaluator.Continues state (evaluator.run infer demand state).2 := by
  induction demand generalizing state with
  | answer value => exact .refl state
  | fail failure => exact .refl state
  | typeOf node next ih =>
      rw [run_typeOf]
      exact (infers node state).andThen ih
  | binding id name next ih =>
      rw [run_binding]
      exact (evaluator.lookUp_continues id name state).andThen ih
  | poll next ih =>
      unfold run
      split
      · rename_i cancellation _
        exact (Continues.polled state cancellation).trans (ih _)
      · exact .refl state

theorem Continues.leave {id : NodeId} {before inner : Progress}
    (result : Except InspectionError Ty) (unknown : evaluator.knownType? before id = none)
    (fresh : before.inProgress[id]? = none)
    (inside : evaluator.Continues (before.enter id) inner) :
    evaluator.Continues before (before.leave id result inner).2 where
  inProgress := by
    obtain ⟨types, left⟩ := before.leave_eq id result inner
    rw [left, inside.inProgress]
    apply Std.ExtTreeMap.ext_getElem?
    intro other
    simp only [Progress.enter, Std.ExtTreeMap.getElem?_erase, Std.ExtTreeMap.getElem?_insert,
      Std.compare_eq_iff_eq]
    split
    · rename_i same
      rw [← same, fresh]
    · rfl
  depth := by
    obtain ⟨types, left⟩ := before.leave_eq id result inner
    rw [left, inside.depth]
    simp [Progress.enter]
  noted := by
    intro depth noted
    obtain ⟨types, left⟩ := before.leave_eq id result inner
    rw [left]
    exact noted_shallowest.mpr (Or.inl noted)
  types := by
    intro other
    by_cases same : id = other
    · subst same
      exact Or.inr ⟨unknown, fresh⟩
    · rw [before.leave_types result inner same]
      rcases inside.types other with kept | ⟨stillUnknown, outside⟩
      · exact Or.inl kept
      · refine Or.inr ⟨stillUnknown, ?_⟩
        simpa [Progress.enter, Std.ExtTreeMap.getElem?_insert, same] using outside

theorem inferWithin_continues (levels : Nat) (node : Node) (state : Progress) :
    evaluator.Continues state (evaluator.inferWithin levels node state).2 := by
  induction levels using Nat.strongRecOn generalizing node state with
  | ind levels ih =>
      have answers := evaluator.inferWithin_answers levels node state
      generalize evaluator.inferWithin levels node state = outcome at answers ⊢
      cases answers with
      | stopped _ => exact .refl state
      | known _ _ => exact .polled state _
      | cut _ _ _ =>
          exact ⟨rfl, rfl, fun noted => noted_shallowest.mpr (Or.inl noted), fun _ => Or.inl rfl⟩
      | tooDeep _ _ _ => exact .polled state _
      | @entered levels cancellation result inner _ unknown fresh ran =>
          have inside := evaluator.run_continues (ih levels (Nat.lt_succ_self levels))
            (evaluator.graph.typingRule node) ((state.polled cancellation).enter node.id)
          rw [ran] at inside
          exact (Continues.polled state cancellation).trans (inside.leave result unknown fresh)

end Evaluator

end FormulaInspection
