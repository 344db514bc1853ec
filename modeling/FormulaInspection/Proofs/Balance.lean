import FormulaInspection.Proofs.Nesting
import FormulaInspection.Proofs.Warmth

/-!
The books of an evaluation are balanced: the nodes that it is inside of were entered one below the
other, and a cycle on record goes back to one of them. Every question leaves them balanced, forgets
no type and learns none that is given, and so what a cache holds is never overwritten.
-/

namespace FormulaInspection

theorem toList_insert_perm {α : Type} {table : IdMap α} {id : NodeId} (value : α)
    (fresh : table[id]? = none) :
    (table.insert id value).toList.Perm ((id, value) :: table.toList) := by
  have unique : ∀ others : IdMap α, others.toList.Nodup := fun others =>
    Std.ExtTreeMap.distinct_keys_toList.imp fun apart same => apart (by simp [same])
  have absent : (id, value) ∉ table.toList := by
    simp [Std.ExtTreeMap.mem_toList_iff_getElem?_eq_some, fresh]
  rw [List.perm_ext_iff_of_nodup (unique _) (List.nodup_cons.mpr ⟨absent, unique _⟩)]
  rintro ⟨other, found⟩
  rw [List.mem_cons, Std.ExtTreeMap.mem_toList_iff_getElem?_eq_some,
    Std.ExtTreeMap.mem_toList_iff_getElem?_eq_some, Std.ExtTreeMap.getElem?_insert]
  by_cases same : id = other
  · subst same
    simp [fresh, eq_comm]
  · simp [same, Ne.symm same]

namespace Progress

/-- The depths of the nodes in progress are the numbers below the depth, each once, and a cycle on
record goes back to one of them. -/
structure Balanced (state : Progress) : Prop where
  depths : (state.inProgress.toList.map Prod.snd).Perm (List.range state.depth)
  cycle_lt : ∀ depth ∈ state.cycleDepth?, depth < state.depth

instance (state : Progress) : Decidable state.Balanced :=
  decidable_of_iff
    ((state.inProgress.toList.map Prod.snd).Perm (List.range state.depth) ∧
      ∀ depth ∈ state.cycleDepth?, depth < state.depth)
    ⟨fun ⟨depths, cycle_lt⟩ => ⟨depths, cycle_lt⟩, fun ⟨depths, cycle_lt⟩ => ⟨depths, cycle_lt⟩⟩

theorem shallowest_lt {left right : Option Nat} {bound : Nat}
    (leftBelow : ∀ depth ∈ left, depth < bound) (rightBelow : ∀ depth ∈ right, depth < bound) :
    ∀ depth ∈ shallowest left right, depth < bound := by
  cases left with
  | none => exact rightBelow
  | some first =>
      cases right with
      | none => exact leftBelow
      | some second =>
          have below := leftBelow first rfl
          intro depth shallow
          obtain rfl := Option.some.inj shallow
          omega

theorem balanced_initial (cancellation : Cancellation) : (initial cancellation).Balanced where
  depths := by simp [initial]
  cycle_lt := by simp [initial]

namespace Balanced

variable {state after : Progress}

theorem entered_lt {id : NodeId} {depth : Nat} (balanced : state.Balanced)
    (entered : state.inProgress[id]? = some depth) : depth < state.depth := by
  have listed := Std.ExtTreeMap.mem_toList_iff_getElem?_eq_some.mpr entered
  have recorded : depth ∈ state.inProgress.toList.map Prod.snd :=
    List.mem_map.mpr ⟨(id, depth), listed, rfl⟩
  exact List.mem_range.mp (balanced.depths.mem_iff.mp recorded)

theorem congr (balanced : state.Balanced) (sameNodes : after.inProgress = state.inProgress)
    (sameDepth : after.depth = state.depth)
    (cycle_lt : ∀ depth ∈ after.cycleDepth?, depth < state.depth) : after.Balanced where
  depths := by
    rw [sameNodes, sameDepth]
    exact balanced.depths
  cycle_lt := by
    rw [sameDepth]
    exact cycle_lt

theorem enter {id : NodeId} (balanced : state.Balanced) (fresh : state.inProgress[id]? = none) :
    (state.enter id).Balanced where
  depths := by
    have entries := (toList_insert_perm state.depth fresh).map Prod.snd
    calc
      ((state.inProgress.insert id state.depth).toList.map Prod.snd).Perm
          (state.depth :: state.inProgress.toList.map Prod.snd) := entries
      List.Perm _ (state.depth :: List.range state.depth) := balanced.depths.cons state.depth
      List.Perm _ (List.range (state.depth + 1)) := by
        rw [List.range_succ]
        exact (List.perm_append_singleton _ _).symm
  cycle_lt := by simp [Progress.enter]

end Balanced

end Progress

namespace Evaluator

variable {evaluator : Evaluator}

theorem inferWithin_cycle_lt (levels : Nat) (node : Node) {state : Progress}
    (balanced : state.Balanced) :
    ∀ depth ∈ (evaluator.inferWithin levels node state).2.cycleDepth?, depth < state.depth := by
  have answers := evaluator.inferWithin_answers levels node state
  generalize evaluator.inferWithin levels node state = outcome at answers ⊢
  cases answers with
  | stopped _ => exact balanced.cycle_lt
  | known _ _ => exact balanced.cycle_lt
  | tooDeep _ _ _ => exact balanced.cycle_lt
  | cut _ _ entered =>
      have back := balanced.entered_lt entered
      exact Progress.shallowest_lt balanced.cycle_lt (by simpa using back)
  | @entered levels cancellation result inner _ _ _ _ =>
      obtain ⟨types, left⟩ := (state.polled cancellation).leave_eq node.id result inner
      rw [left]
      refine Progress.shallowest_lt balanced.cycle_lt fun depth stillOpen => ?_
      exact of_decide_eq_true (Option.mem_filter_iff.mp stillOpen).2

theorem inferNode_balanced (node : Node) {state : Progress} (balanced : state.Balanced) :
    (evaluator.inferNode node state).2.Balanced := by
  have continues := evaluator.inferNode_continues node state
  exact balanced.congr continues.inProgress continues.depth (inferWithin_cycle_lt _ node balanced)

theorem lookUp_balanced (id : NodeId) (name : String) {state : Progress}
    (balanced : state.Balanced) : (evaluator.lookUp id name state).2.Balanced := by
  obtain ⟨scopes, cancellation, frame⟩ := evaluator.lookUp_frame id name state
  rw [frame]
  exact balanced.congr rfl rfl balanced.cycle_lt

theorem Passes.balanced {demand : Demand Ty} {state : Progress}
    (passes : evaluator.Passes demand state) : state.Balanced :=
  passes.invariant Progress.balanced_initial
    (fun _ balanced => balanced.congr rfl rfl balanced.cycle_lt)
    (fun _ fresh balanced => balanced.enter fresh)
    (fun node _ balanced => inferNode_balanced node balanced)
    (fun id name _ balanced => lookUp_balanced id name balanced)

namespace Continues

variable {before after : Progress}

theorem cycle (continues : evaluator.Continues before after) :
    after.cycleDepth? = before.cycleDepth? ∨
      ∃ depth, after.cycleDepth? = some depth ∧ ∀ earlier ∈ before.cycleDepth?, depth < earlier := by
  cases was : before.cycleDepth? with
  | none =>
      cases is : after.cycleDepth? with
      | none => exact Or.inl rfl
      | some depth => exact Or.inr ⟨depth, rfl, by simp⟩
  | some earlier =>
      obtain ⟨depth, is, back⟩ := continues.noted ⟨earlier, was, Nat.le_refl earlier⟩
      rw [is]
      rcases Nat.lt_or_eq_of_le back with further | same
      · exact Or.inr ⟨depth, rfl, by simpa using further⟩
      · exact Or.inl (by rw [same])

theorem remembers {id : NodeId} {ty : Ty} (continues : evaluator.Continues before after)
    (held : before.types[id]? = some ty) : after.types[id]? = some ty := by
  rcases continues.types id with same | ⟨unknown, _⟩
  · exact same.trans held
  · simp [knownType?, held] at unknown

theorem learns {id : NodeId} (continues : evaluator.Continues before after)
    (learnt : id ∈ after.types) (unheld : id ∉ before.types) :
    id ∉ evaluator.givenTypes ∧ id ∉ before.inProgress := by
  simp only [Std.ExtTreeMap.mem_iff_isSome_getElem?] at learnt unheld ⊢
  rcases continues.types id with same | ⟨unknown, outside⟩
  · rw [same] at learnt
    exact absurd learnt unheld
  · have ungiven := (Option.or_eq_none_iff.mp unknown).2
    simp [ungiven, outside]

end Continues

end Evaluator

theorem inferType_keepsHeld {graph : Graph} {id held : NodeId} {maxDepth : Nat}
    {cache : InspectionCache} {cancellation : Cancellation} {found : Ty}
    (known : cache.types[held]? = some found) :
    (inferType graph id maxDepth cache cancellation).cache.types[held]? = some found := by
  cases read : graph.node id with
  | error missing => rwa [inferType_missing read]
  | ok node =>
      have continues := @Evaluator.inferWithin_continues
        ⟨graph, maxDepth, cache.types, cache.scopes⟩ maxDepth node (.initial cancellation)
      rw [inferType_cache read]
      unfold InspectionCache.commit
      split
      · rw [Std.ExtTreeMap.getElem?_union]
        rcases continues.types held with same | ⟨unknown, _⟩
        · rw [same]
          simpa [Progress.initial] using known
        · simp [Evaluator.knownType?, known] at unknown
      · exact known

/-- At every moment of an evaluation the books are balanced. Whether or not it succeeds, a question
that finds them balanced leaves them so: the evaluation is inside the same nodes, the cycle on record
is the same or is new or goes back further, no type is forgotten or changed, and none is learnt of a
node that was given one or that is in progress. So no request, whatever it comes to, changes or drops
a type that its cache holds. -/
theorem evaluation_balanced :
    (∀ (evaluator : Evaluator) (demand : Demand Ty) (state : Progress),
      evaluator.Passes demand state → state.Balanced) ∧
    (∀ (evaluator : Evaluator) (node : Node) (before after : Progress)
        (result : Except InspectionError Ty),
      before.Balanced → evaluator.inferNode node before = (result, after) →
      after.inProgress = before.inProgress ∧ after.depth = before.depth ∧ after.Balanced ∧
      (after.cycleDepth? = before.cycleDepth? ∨
        ∃ depth, after.cycleDepth? = some depth ∧
          ∀ earlier ∈ before.cycleDepth?, depth < earlier) ∧
      (∀ (id : NodeId) (ty : Ty), before.types[id]? = some ty → after.types[id]? = some ty) ∧
      ∀ id ∈ after.types, id ∉ before.types →
        id ∉ evaluator.givenTypes ∧ id ∉ before.inProgress) ∧
    ∀ (graph : Graph) (id : NodeId) (maxDepth : Nat) (cache : InspectionCache)
        (cancellation : Cancellation) (held : NodeId) (found : Ty),
      cache.types[held]? = some found →
      (inferType graph id maxDepth cache cancellation).cache.types[held]? = some found := by
  refine ⟨fun _ _ _ passes => passes.balanced, ?_,
    fun _ _ _ _ _ _ _ known => inferType_keepsHeld known⟩
  intro evaluator node before after result balanced inferred
  have continues := evaluator.inferNode_continues node before
  have stillBalanced := @Evaluator.inferNode_balanced evaluator node before balanced
  rw [inferred] at continues stillBalanced
  exact ⟨continues.inProgress, continues.depth, stillBalanced, continues.cycle,
    fun _ _ held => continues.remembers held, fun _ learnt unheld => continues.learns learnt unheld⟩

def staleCache : InspectionCache :=
  { types := (∅ : IdMap Ty).insert 22 (.of .text), scopes := ∅ }

def staleEvaluator : Evaluator :=
  { graph := steadySample
    maxDepth := 50
    givenTypes := staleCache.types
    givenScopes := staleCache.scopes }

def steadyChoice : Node :=
  .ast ⟨26, .ifExpression, some Slot.pairValue, .none⟩

/-- Inside the value of `a` and the use of `b` in it, to which a cycle has led back. The use of `b`
that is the body has a type that it would not get. -/
def openProgress : Progress :=
  { ((Progress.initial .never).enter 10).enter 2 with
    types := (∅ : IdMap Ty).insert 28 .any
    cycleDepth? := some 1 }

/-- The value of `b` leads back to that of `a`, which is further than before. The type of its
condition is learnt, and that of the number is not. -/
theorem staleCache_balanced :
    staleEvaluator.graph.node? 26 = some steadyChoice ∧
    (∃ demand state, staleEvaluator.Passes demand state ∧ state.depth = 1 ∧ state.Balanced) ∧
    openProgress.Balanced ∧
    (∃ ty after, staleEvaluator.inferNode steadyChoice openProgress = (.ok ty, after) ∧
      after.inProgress = openProgress.inProgress ∧ after.depth = openProgress.depth ∧
      after.Balanced ∧ openProgress.cycleDepth? = some 1 ∧ after.cycleDepth? = some 0 ∧
      after.types[28]? = some .any ∧ 11 ∈ after.types ∧ 11 ∉ openProgress.types ∧
      11 ∉ staleEvaluator.givenTypes ∧ 11 ∉ openProgress.inProgress) ∧
    (inferType steadySample 41 50 staleCache .never).answer.isOk = true ∧
      (inferType steadySample 41 50 staleCache .never).cache.types[22]? = some (.of .text) := by
  obtain ⟨moment, question, request⟩ := evaluation_balanced
  have found : staleEvaluator.graph.node? 26 = some steadyChoice := by decide +kernel
  have balanced : openProgress.Balanced := by decide +kernel
  refine ⟨found, ?_, balanced, ?_, ?_⟩
  · have begun : staleEvaluator.Passes _ _ := .start .never (Graph.node_eq_ok.mpr found)
    have inside := begun.entered rfl rfl rfl (by decide)
    exact ⟨_, _, inside, rfl, moment staleEvaluator _ _ inside⟩
  · have answers : (staleEvaluator.inferNode steadyChoice openProgress).1.isOk = true := by
      decide +kernel
    have cycle : (staleEvaluator.inferNode steadyChoice openProgress).2.cycleDepth? = some 0 := by
      decide +kernel
    have learnt : 11 ∈ (staleEvaluator.inferNode steadyChoice openProgress).2.types := by
      decide +kernel
    have unheld : 11 ∉ openProgress.types := by decide +kernel
    cases inferred : staleEvaluator.inferNode steadyChoice openProgress with
    | mk result after =>
        rw [inferred] at answers cycle learnt
        cases result with
        | error failure => simp [Except.isOk, Except.toBool] at answers
        | ok ty =>
            obtain ⟨sameNodes, sameDepth, stillBalanced, _, remembers, learns⟩ :=
              question staleEvaluator steadyChoice openProgress after (.ok ty) balanced inferred
            exact ⟨ty, after, rfl, sameNodes, sameDepth, stillBalanced, rfl, cycle,
              remembers 28 .any rfl, learnt, unheld, learns 11 learnt unheld⟩
  · exact ⟨by decide +kernel, request steadySample 41 50 staleCache .never 22 (.of .text) rfl⟩

end FormulaInspection
