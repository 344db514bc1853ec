import FormulaInspection.Proofs.Nesting
import FormulaInspection.Proofs.Warmth

/-!
What an evaluation owes to the nodes around it. An evaluation that begins inside other nodes differs
from one that begins outside all of them in nothing but the cycles that are cut at those nodes, and
each of those is on record. A type is remembered only when no cycle is on record, so what is
remembered does not depend on where the evaluation was.
-/

namespace FormulaInspection

theorem shallowest_map (base : Nat) (left right : Option Nat) :
    Progress.shallowest (left.map (base + ·)) (right.map (base + ·)) =
      (Progress.shallowest left right).map (base + ·) := by
  cases left <;> cases right <;> simp [Progress.shallowest]

theorem filter_lt_map (base depth : Nat) (cycleDepth? : Option Nat) :
    (cycleDepth?.map (base + ·)).filter (· < base + depth) =
      (cycleDepth?.filter (· < depth)).map (base + ·) := by
  rw [Option.filter_map]
  simp [Function.comp_def]

def ClosedAt (depth : Nat) (cycleDepth? : Option Nat) : Prop :=
  ∀ shallow < depth, ¬Noted cycleDepth? shallow

namespace Progress

theorem leave_answered {before inner after : Progress} {id : NodeId} {ty : Ty}
    {result : Except InspectionError Ty} (left : before.leave id result inner = (.ok ty, after)) :
    result = .ok ty := by
  obtain ⟨types, leaves⟩ := before.leave_eq id result inner
  rw [leaves] at left
  exact congrArg Prod.fst left

def alone (state : Progress) : Progress :=
  { state with inProgress := ∅, depth := 0, cycleDepth? := none }

/-- The state `nested` is inside the nodes of `outer` and, within them, inside those of `inner`.
Apart from that, and from the cycles on record, `nested` and `inner` are the same. -/
structure Surrounds (outer nested inner : Progress) : Prop where
  depth : nested.depth = outer.depth + inner.depth
  inProgress : ∀ id : NodeId, nested.inProgress[id]? =
    (inner.inProgress[id]?.map (outer.depth + ·)).or outer.inProgress[id]?
  types : nested.types = inner.types
  scopes : nested.scopes = inner.scopes
  cancellation : nested.cancellation = inner.cancellation

structure Detaches (outer nested inner : Progress) : Prop extends Surrounds outer nested inner where
  cycles : nested.cycleDepth? = inner.cycleDepth?.map (outer.depth + ·)

variable {outer nested inner : Progress}

theorem surrounds_alone (state : Progress) : state.Surrounds state state.alone where
  depth := rfl
  inProgress := by simp [alone]
  types := rfl
  scopes := rfl
  cancellation := rfl

theorem Surrounds.polled (surrounds : outer.Surrounds nested inner) (cancellation : Cancellation) :
    outer.Surrounds (nested.polled cancellation) (inner.polled cancellation) :=
  { surrounds with cancellation := rfl }

theorem Surrounds.enter (surrounds : outer.Surrounds nested inner) (id : NodeId) :
    outer.Detaches (nested.enter id) (inner.enter id) where
  depth := by
    simp only [Progress.enter, surrounds.depth]
    omega
  inProgress := by
    intro other
    simp only [Progress.enter, Std.ExtTreeMap.getElem?_insert, surrounds.inProgress,
      surrounds.depth]
    split <;> rfl
  types := surrounds.types
  scopes := surrounds.scopes
  cancellation := surrounds.cancellation
  cycles := rfl

theorem Surrounds.fresh (surrounds : outer.Surrounds nested inner) {id : NodeId}
    (fresh : nested.inProgress[id]? = none) : inner.inProgress[id]? = none := by
  rw [surrounds.inProgress] at fresh
  simpa using (Option.or_eq_none_iff.mp fresh).1

theorem Surrounds.eq_alone (surrounds : outer.Surrounds nested inner)
    (outside : inner.inProgress = ∅) (bottom : inner.depth = 0) (noCycle : inner.cycleDepth? = none) :
    inner = nested.alone := by
  obtain ⟨types, scopes, inProgress, depth, cycleDepth?, cancellation⟩ := inner
  simp only at outside bottom noCycle
  simp [alone, surrounds.types, surrounds.scopes, surrounds.cancellation, outside, bottom, noCycle]

theorem Detaches.polled (detaches : outer.Detaches nested inner) (cancellation : Cancellation) :
    outer.Detaches (nested.polled cancellation) (inner.polled cancellation) :=
  { detaches with cancellation := rfl }

theorem Detaches.leave_cycles {after left : Progress} (before : outer.Detaches nested inner)
    (inside : outer.Detaches after left) (id : NodeId) (ty : Ty) :
    (nested.leave id (.ok ty) after).2.cycleDepth? =
      (inner.leave id (.ok ty) left).2.cycleDepth?.map (outer.depth + ·) := by
  simp only [leave_ok]
  rw [inside.cycles, before.cycles, before.depth, filter_lt_map, shallowest_map]

end Progress

namespace Evaluator

variable {evaluator : Evaluator} {outer : Progress}

theorem knownType?_inner {nested inner : Progress} (surrounds : outer.Surrounds nested inner)
    (id : NodeId) : evaluator.knownType? inner id = evaluator.knownType? nested id := by
  unfold knownType?
  rw [surrounds.types]

theorem resolve_inner {nested inner : Progress} (surrounds : outer.Surrounds nested inner)
    (id : NodeId) :
    evaluator.resolve id inner =
      ((evaluator.resolve id nested).1,
        { inner with
          scopes := (evaluator.resolve id nested).2.scopes
          cancellation := (evaluator.resolve id nested).2.cancellation }) := by
  have sameScope : evaluator.knownScope? inner id = evaluator.knownScope? nested id := by
    unfold knownScope?
    rw [surrounds.scopes]
  unfold resolve
  rw [sameScope, ← surrounds.scopes, ← surrounds.cancellation]
  by_cases known : (evaluator.knownScope? nested id).isSome = true
  · simp [known, surrounds.scopes, surrounds.cancellation]
  · simp only [known, Bool.false_eq_true, if_false]
    cases Resolver.inspect ⟨evaluator.graph, [nested.scopes, evaluator.givenScopes]⟩ id
        ⟨∅, nested.cancellation⟩ with
    | mk result resolution => cases result <;> simp [surrounds.scopes]

theorem lookUp_inner {nested inner : Progress} (surrounds : outer.Surrounds nested inner)
    (id : NodeId) (name : String) :
    evaluator.lookUp id name inner =
      ((evaluator.lookUp id name nested).1,
        { inner with
          scopes := (evaluator.lookUp id name nested).2.scopes
          cancellation := (evaluator.lookUp id name nested).2.cancellation }) := by
  unfold lookUp
  rw [evaluator.resolve_inner surrounds]
  cases evaluator.resolve id nested with
  | mk result after =>
      cases result with
      | error failure => rfl
      | ok value =>
          have sameScope : ∀ other : Progress, evaluator.knownScope? { other with
              scopes := after.scopes, cancellation := after.cancellation } id =
            evaluator.knownScope? after id := fun _ => rfl
          simp only [sameScope]
          cases evaluator.knownScope? after id <;> rfl

/-- What an evaluation inside the nodes of `outer` answers, when it has met no cycle that reaches
them, an evaluation outside of them answers as well. -/
def Carries {α : Type} (outer : Progress) (nested inner : Outcome α) : Prop :=
  ∀ value after, nested = (.ok value, after) → ClosedAt outer.depth after.cycleDepth? →
    ∃ left, inner = (.ok value, left) ∧ outer.Detaches after left

theorem Continues.closedAt {before after : Progress} {depth : Nat}
    (continues : evaluator.Continues before after) (closed : ClosedAt depth after.cycleDepth?) :
    ClosedAt depth before.cycleDepth? :=
  fun shallow short noted => closed shallow short (continues.noted noted)

theorem Carries.andThen {α β : Type} {nested inner : Outcome α}
    {next further : α → Progress → Outcome β} (asked : Carries outer nested inner)
    (continues : ∀ value state, evaluator.Continues state (next value state).2)
    (onward : ∀ value {after left}, outer.Detaches after left →
      Carries outer (next value after) (further value left)) :
    Carries outer (Outcome.andThen nested next) (Outcome.andThen inner further) := by
  obtain ⟨result, between⟩ := nested
  intro value after ran closed
  cases result with
  | error failure => cases ran
  | ok answer =>
      have rest := continues answer between
      rw [show next answer between = (.ok value, after) from ran] at rest
      obtain ⟨left, rfl, detaches⟩ := asked answer between rfl (rest.closedAt closed)
      exact onward answer detaches value after ran closed

theorem lookUp_carries {nested inner : Progress} (detaches : outer.Detaches nested inner)
    (id : NodeId) (name : String) :
    Carries outer (evaluator.lookUp id name nested) (evaluator.lookUp id name inner) := by
  intro item? after found _
  obtain ⟨scopes, cancellation, frame⟩ := evaluator.lookUp_frame id name nested
  refine ⟨{ inner with scopes, cancellation }, ?_, ?_⟩
  · rw [evaluator.lookUp_inner detaches.toSurrounds, frame, found]
  · rw [found] at frame
    simp only at frame
    subst frame
    exact { detaches with scopes := rfl, cancellation := rfl }

theorem run_carries {infer inferFurther : Node → Progress → Outcome Ty}
    (continues : ∀ node state, evaluator.Continues state (infer node state).2)
    (carries : ∀ node nested inner, outer.Detaches nested inner →
      Carries outer (infer node nested) (inferFurther node inner))
    {α : Type} (demand : Demand α) {nested inner : Progress}
    (detaches : outer.Detaches nested inner) :
    Carries outer (evaluator.run infer demand nested) (evaluator.run inferFurther demand inner) := by
  induction demand generalizing nested inner with
  | answer value =>
      rintro _ _ ⟨⟩ _
      exact ⟨inner, rfl, detaches⟩
  | fail failure =>
      rintro _ _ ⟨⟩
  | typeOf node next ih =>
      rw [run_typeOf, run_typeOf]
      exact (carries node nested inner detaches).andThen
        (fun ty => evaluator.run_continues continues (next ty)) ih
  | binding id name next ih =>
      rw [run_binding, run_binding]
      exact (evaluator.lookUp_carries detaches id name).andThen
        (fun item? => evaluator.run_continues continues (next item?)) ih
  | poll next ih =>
      intro value after ran closed
      unfold run at ran ⊢
      rw [← detaches.cancellation]
      cases go : nested.cancellation.poll with
      | error failure =>
          rw [go] at ran
          cases ran
      | ok cancellation =>
          rw [go] at ran
          exact ih (detaches.polled cancellation) value after ran closed

theorem enter_carries {levels further : Nat} {node : Node} {nested inner after : Progress} {ty : Ty}
    (carries : ∀ other nested inner, outer.Detaches nested inner →
      Carries outer (evaluator.inferWithin levels other nested)
        (evaluator.inferWithin further other inner))
    (before : outer.Surrounds nested inner) (unknown : evaluator.knownType? nested node.id = none)
    (fresh : nested.inProgress[node.id]? = none)
    (ran : evaluator.run (evaluator.inferWithin levels) (evaluator.graph.typingRule node)
      (nested.enter node.id) = (.ok ty, after))
    (closed : ClosedAt outer.depth after.cycleDepth?) :
    ∃ left, evaluator.run (evaluator.inferWithin further) (evaluator.graph.typingRule node)
        (inner.enter node.id) = (.ok ty, left) ∧ outer.Detaches after left ∧
      outer.Surrounds (nested.leave node.id (.ok ty) after).2
        (inner.leave node.id (.ok ty) left).2 := by
  obtain ⟨left, ranInner, inside⟩ := evaluator.run_carries
    (evaluator.inferWithin_continues levels) carries (evaluator.graph.typingRule node)
    (before.enter node.id) ty after ran closed
  have nestedInside := evaluator.run_continues (evaluator.inferWithin_continues levels)
    (evaluator.graph.typingRule node) (nested.enter node.id)
  have innerInside := evaluator.run_continues (evaluator.inferWithin_continues further)
    (evaluator.graph.typingRule node) (inner.enter node.id)
  rw [ran] at nestedInside
  rw [ranInner] at innerInside
  have nestedLeft := nestedInside.leave (.ok ty) unknown fresh
  have innerLeft := innerInside.leave (.ok ty)
    ((evaluator.knownType?_inner before node.id).trans unknown) (before.fresh fresh)
  refine ⟨left, ranInner, inside, ?_, ?_, ?_, ?_, ?_⟩
  · rw [nestedLeft.depth, innerLeft.depth, before.depth]
  · rw [nestedLeft.inProgress, innerLeft.inProgress]
    exact before.inProgress
  · simp [Progress.leave_ok, inside.cycles, inside.types]
  · simp [Progress.leave_ok, inside.scopes]
  · simp [Progress.leave_ok, inside.cancellation]

theorem inferWithin_carries
    (bounded : ∀ (id : NodeId) depth, outer.inProgress[id]? = some depth → depth < outer.depth)
    {levels more : Nat} (fewer : levels ≤ more) (node : Node) {nested inner : Progress}
    (detaches : outer.Detaches nested inner) :
    Carries outer (evaluator.inferWithin levels node nested)
      (evaluator.inferWithin more node inner) := by
  induction levels using Nat.strongRecOn generalizing more node nested inner with
  | ind levels ih =>
      intro ty after inferred closed
      have answers := evaluator.inferWithin_answers levels node nested
      have sameType := evaluator.knownType?_inner detaches.toSurrounds node.id
      have sameHost := detaches.cancellation
      generalize evaluator.inferWithin levels node nested = outcome at answers inferred
      cases answers with
      | stopped _ => cases inferred
      | @known _ cancellation _ go seen =>
          cases inferred
          rw [sameHost] at go
          rw [← sameType] at seen
          exact ⟨inner.polled cancellation, inferWithin_known go seen, detaches.polled cancellation⟩
      | @cut _ cancellation enteredAt go unknown entry =>
          cases inferred
          rw [sameHost] at go
          rw [← sameType] at unknown
          rw [detaches.inProgress] at entry
          cases within : inner.inProgress[node.id]? with
          | some depth =>
              simp only [within, Option.map_some, Option.some_or, Option.some.injEq] at entry
              subst entry
              refine ⟨_, inferWithin_cut go unknown within,
                { detaches.polled cancellation with cycles := ?_ }⟩
              exact (congrArg (Progress.shallowest · _) detaches.cycles).trans
                (shallowest_map outer.depth inner.cycleDepth? (some depth))
          | none =>
              simp only [within, Option.map_none, Option.none_or] at entry
              have noted :
                  Noted (Progress.shallowest nested.cycleDepth? (some enteredAt)) enteredAt :=
                noted_shallowest.mpr (Or.inr ⟨enteredAt, rfl, Nat.le_refl _⟩)
              exact absurd noted (closed enteredAt (bounded node.id enteredAt entry))
      | tooDeep _ _ _ => cases inferred
      | @entered levels cancellation result between go unknown fresh ran =>
          obtain ⟨further, rfl⟩ : ∃ further, more = further + 1 := ⟨more - 1, by omega⟩
          have answered : result = .ok ty := Progress.leave_answered inferred
          subst answered
          have deeper : outer.depth ≤ nested.depth := by
            rw [detaches.depth]
            omega
          have closedInside : ClosedAt outer.depth between.cycleDepth? := by
            intro shallow short noted
            rw [Progress.leave_ok] at inferred
            refine closed shallow short ?_
            rw [← (Prod.mk.inj inferred).2]
            exact noted_shallowest.mpr (Or.inr (noted_filter noted (Nat.lt_of_lt_of_le short deeper)))
          obtain ⟨left, ranInner, inside, final⟩ := enter_carries
            (fun other _ _ agree => ih levels (Nat.lt_succ_self levels)
              (show levels ≤ further by omega) other agree)
            (detaches.toSurrounds.polled cancellation) unknown fresh ran closedInside
          have whole := inferWithin_entered (sameHost ▸ go) (sameType.trans unknown)
            (detaches.fresh fresh) ranInner
          have cycles := (detaches.polled cancellation).leave_cycles inside node.id ty
          rw [inferred] at final cycles
          rw [whole]
          exact ⟨_, by rw [Progress.leave_ok], { final with cycles }⟩

theorem run_entered_types {infer : Node → Progress → Outcome Ty}
    (infers : ∀ node state, evaluator.Continues state (infer node state).2) {α : Type}
    (demand : Demand α) {id : NodeId} {state : Progress} (unknown : id ∉ state.types) :
    id ∉ (evaluator.run infer demand (state.enter id)).2.types := by
  have continues := evaluator.run_continues infers demand (state.enter id)
  rw [Std.ExtTreeMap.mem_iff_isSome_getElem?] at unknown ⊢
  rcases continues.types id with same | ⟨_, outside⟩
  · rw [same]
    exact unknown
  · simp [Progress.enter] at outside

end Evaluator

/-- A type that is remembered does not depend on the nodes that the evaluation was inside of: outside
all of them the same type is found, and the same types, scopes and polls come of it. -/
theorem inferNode_detached {evaluator : Evaluator} {demand : Demand Ty} {state : Progress}
    (passes : evaluator.Passes demand state) (node : Node) {ty : Ty} {after : Progress}
    (inferred : evaluator.inferNode node state = (.ok ty, after)) (unknown : node.id ∉ state.types)
    (remembered : node.id ∈ after.types) :
    evaluator.inferNode node state.alone = (.ok ty, after.alone) := by
  obtain ⟨stack, tracks⟩ := passes.tracks
  have bounded : ∀ (id : NodeId) depth, state.inProgress[id]? = some depth → depth < state.depth := by
    intro id depth entry
    rw [tracks.entered] at entry
    rw [tracks.depth]
    exact enteredAt_lt entry
  have fewer : evaluator.maxDepth - state.depth ≤ evaluator.maxDepth := Nat.sub_le _ _
  unfold Evaluator.inferNode at inferred ⊢
  change evaluator.inferWithin evaluator.maxDepth node state.alone = _
  have answers := evaluator.inferWithin_answers (evaluator.maxDepth - state.depth) node state
  generalize evaluator.inferWithin (evaluator.maxDepth - state.depth) node state = outcome
    at answers inferred
  generalize evaluator.maxDepth - state.depth = levels at answers fewer
  generalize evaluator.maxDepth = more at fewer ⊢
  cases answers with
  | stopped _ => cases inferred
  | known _ _ =>
      cases inferred
      exact absurd remembered unknown
  | cut _ _ _ =>
      cases inferred
      exact absurd remembered unknown
  | tooDeep _ _ _ => cases inferred
  | @entered levels cancellation result between go unseen fresh ran =>
      obtain ⟨further, rfl⟩ : ∃ further, more = further + 1 := ⟨more - 1, by omega⟩
      have answered : result = .ok ty := Progress.leave_answered inferred
      subst answered
      have unlearnt := evaluator.run_entered_types (evaluator.inferWithin_continues levels)
        (evaluator.graph.typingRule node)
        (show node.id ∉ (state.polled cancellation).types from unknown)
      rw [ran] at unlearnt
      have noCycle : between.cycleDepth? = none := by
        rw [Progress.leave_ok] at inferred
        rw [← (Prod.mk.inj inferred).2] at remembered
        by_contra cycle
        simp [Option.isSome_iff_ne_none.mpr cycle, unlearnt] at remembered
      have closed : ClosedAt state.depth between.cycleDepth? := by
        rintro shallow _ ⟨_, found, _⟩
        simp [noCycle] at found
      obtain ⟨left, ranAlone, inside, final⟩ := Evaluator.enter_carries
        (fun other _ _ agree => evaluator.inferWithin_carries bounded
          (show levels ≤ further by omega) other agree)
        (state.surrounds_alone.polled cancellation) unseen fresh ran closed
      have whole := @Evaluator.inferWithin_entered evaluator node state.alone cancellation further _ _
        go unseen (by simp [Progress.alone]) ranAlone
      have continues := evaluator.inferWithin_continues (further + 1) node state.alone
      have cycleAlone : left.cycleDepth? = none := by
        simpa [noCycle] using inside.cycles.symm
      rw [inferred] at final
      rw [whole] at continues ⊢
      rw [← final.eq_alone continues.inProgress continues.depth
        (by simp [Progress.leave_ok, cycleAlone, Progress.alone, Progress.polled,
          Progress.shallowest])]
      rw [Progress.leave_ok]

def steadyEvaluator : Evaluator :=
  { graph := steadySample, maxDepth := 50, givenTypes := ∅, givenScopes := ∅ }

/-- Inside the `let`, its body is asked for. The cycle through both bindings closes at one of them, and
so the type of the body is remembered. -/
theorem steadySample_detached :
    ∃ (whole body : Node) (inside after : Progress) (ty : Ty),
      steadyEvaluator.Passes (steadyEvaluator.graph.typingRule whole) inside ∧
      inside.inProgress[whole.id]? = some 0 ∧ inside.depth = 1 ∧
      steadyEvaluator.inferNode body inside = (.ok ty, after) ∧
      body.id ∉ inside.types ∧ body.id ∈ after.types ∧
      steadyEvaluator.inferNode body inside.alone = (.ok ty, after.alone) := by
  have ids : (steadyEvaluator.graph.node 41).map Node.id = .ok 41 ∧
      (steadyEvaluator.graph.node 34).map Node.id = .ok 34 := by decide +kernel
  have answers :
      (steadyEvaluator.infer 34 ((Progress.initial .never).enter 41)).1.isOk = true := by
    decide +kernel
  have remembers : 34 ∈ (steadyEvaluator.infer 34 ((Progress.initial .never).enter 41)).2.types := by
    decide +kernel
  cases wholeFound : steadyEvaluator.graph.node 41 with
  | error failure => simp [wholeFound, Except.map] at ids
  | ok whole =>
      cases bodyFound : steadyEvaluator.graph.node 34 with
      | error failure => simp [bodyFound, Except.map] at ids
      | ok body =>
          simp only [wholeFound, bodyFound, Except.map, Except.ok.injEq] at ids
          simp only [Evaluator.infer, bodyFound] at answers remembers
          rw [← ids.1] at answers
          rw [← ids.1, ← ids.2] at remembers
          have begun := Evaluator.Passes.start .never wholeFound
          have inside := begun.entered rfl rfl rfl (by decide)
          cases inferred : steadyEvaluator.inferNode body
              ((Progress.initial .never).enter whole.id) with
          | mk result after =>
              rw [inferred] at answers remembers
              cases result with
              | error failure => simp [Except.isOk, Except.toBool] at answers
              | ok ty =>
                  have unknown : body.id ∉ ((Progress.initial .never).enter whole.id).types := by
                    simp [Progress.initial, Progress.enter]
                  exact ⟨whole, body, (Progress.initial .never).enter whole.id, after, ty, inside,
                    by simp [Progress.enter, Progress.initial], rfl, inferred, unknown, remembers,
                    inferNode_detached inside body inferred unknown remembers⟩

end FormulaInspection
