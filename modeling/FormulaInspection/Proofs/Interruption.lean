import FormulaInspection.Proofs.Nesting
import FormulaInspection.Proofs.ScopeCache

/-!
Cutoffs are all or nothing. The host may stop an inspection at any poll, and may limit how deep it
is nested. An inspection that is cut off leaves the cache of the host alone, and one that is not
comes to exactly what it comes to when nothing holds it back.
-/

namespace FormulaInspection

def Resolution.patient (state : Resolution) : Resolution :=
  { state with cancellation := .never }

namespace Resolver

variable {resolver : Resolver}

theorem walk_patient (path : List Node) (state : Resolution) :
    resolver.walk path state.patient =
        ((resolver.walk path state).1, (resolver.walk path state).2.patient) ∨
      state.cancellation ≠ .never ∧ (resolver.walk path state).1 = .error .cancelled := by
  induction path generalizing state with
  | nil => exact Or.inl rfl
  | cons node rest ih =>
      cases go : state.cancellation.poll with
      | error failure =>
          obtain ⟨impatient, rfl⟩ := Cancellation.poll_error go
          exact Or.inr ⟨impatient, by simp [walk, go]⟩
      | ok cancellation =>
          unfold walk
          simp only [go, Resolution.patient, Cancellation.never_poll]
          cases visited : resolver.visit node rest.head? state.delta with
          | mk delta failure? =>
              cases failure? with
              | some failure => exact Or.inl rfl
              | none =>
                  rcases ih { delta, cancellation } with same | ⟨impatient, stopped⟩
                  · exact Or.inl same
                  · exact Or.inr ⟨fun never => impatient (Cancellation.poll_never never go), stopped⟩

theorem inspect_patient (root : NodeId) (state : Resolution) :
    resolver.inspect root state.patient =
        ((resolver.inspect root state).1, (resolver.inspect root state).2.patient) ∨
      state.cancellation ≠ .never ∧ (resolver.inspect root state).1 = .error .cancelled := by
  cases go : state.cancellation.poll with
  | error failure =>
      obtain ⟨impatient, rfl⟩ := Cancellation.poll_error go
      exact Or.inr ⟨impatient, by simp [inspect, go]⟩
  | ok cancellation =>
      unfold inspect
      simp only [go, Resolution.patient, Cancellation.never_poll]
      by_cases known : (state.delta.contains root || (resolver.given? root).isSome) = true
      · simp [known]
      · simp only [known, Bool.false_eq_true, if_false]
        cases resolver.graph.ancestry root with
        | error failure => exact Or.inl rfl
        | ok path =>
            rcases resolver.walk_patient path.reverse { state with cancellation } with
              same | ⟨impatient, stopped⟩
            · exact Or.inl same
            · exact Or.inr ⟨fun never => impatient (Cancellation.poll_never never go), stopped⟩

end Resolver

theorem resolveScopeInto_cutoff (graph : Graph) (root : NodeId) (cache : Scopes)
    (cancellation : Cancellation) :
    cancellation ≠ .never ∧
        (resolveScopeInto graph root cache cancellation).answer = .error .cancelled ∨
      (resolveScopeInto graph root cache cancellation).answer =
          (resolveScopeInto graph root cache .never).answer ∧
        (resolveScopeInto graph root cache cancellation).cache =
          (resolveScopeInto graph root cache .never).cache := by
  have answer := @Resolver.inspect_patient ⟨graph, [cache]⟩ root ⟨∅, cancellation⟩
  simp only [resolveScopeInto]
  cases cut : Resolver.inspect ⟨graph, [cache]⟩ root ⟨∅, cancellation⟩ with
  | mk result final =>
      rw [cut] at answer
      rcases answer with same | ⟨impatient, stopped⟩
      · change Resolver.inspect ⟨graph, [cache]⟩ root ⟨∅, .never⟩ = _ at same
        rw [same]
        cases result <;> exact Or.inr ⟨rfl, rfl⟩
      · simp only at stopped
        subst stopped
        exact Or.inl ⟨impatient, rfl⟩

theorem resolveScopeInto_failed {graph : Graph} {root : NodeId} {cache : Scopes}
    {cancellation : Cancellation} {failure : InspectionError}
    (failed : (resolveScopeInto graph root cache cancellation).answer = .error failure) :
    (resolveScopeInto graph root cache cancellation).cache = cache := by
  unfold resolveScopeInto at failed ⊢
  split at failed
  · cases failed
  · rfl

namespace Progress

def patient (state : Progress) : Progress :=
  { state with cancellation := .never }

theorem leave_patient (before : Progress) (id : NodeId) (result : Except InspectionError Ty)
    (inner : Progress) :
    before.patient.leave id result inner.patient =
      ((before.leave id result inner).1, (before.leave id result inner).2.patient) := by
  cases result with
  | error failure => rfl
  | ok ty =>
      simp only [leave_ok]
      rfl

end Progress

namespace Evaluator

variable {evaluator : Evaluator}

theorem resolve_patient (id : NodeId) (state : Progress) :
    evaluator.resolve id state.patient =
        ((evaluator.resolve id state).1, (evaluator.resolve id state).2.patient) ∨
      state.cancellation ≠ .never ∧ (evaluator.resolve id state).1 = .error .cancelled := by
  have answer := @Resolver.inspect_patient
    ⟨evaluator.graph, [state.scopes, evaluator.givenScopes]⟩ id ⟨∅, state.cancellation⟩
  have sameScope : evaluator.knownScope? state.patient id = evaluator.knownScope? state id := rfl
  unfold resolve
  simp only [sameScope]
  by_cases known : (evaluator.knownScope? state id).isSome = true
  · simp [known]
  · simp only [known, Bool.false_eq_true, if_false]
    cases cut : Resolver.inspect ⟨evaluator.graph, [state.scopes, evaluator.givenScopes]⟩ id
        ⟨∅, state.cancellation⟩ with
    | mk result final =>
        rw [cut] at answer
        rcases answer with same | ⟨impatient, stopped⟩
        · change Resolver.inspect ⟨evaluator.graph, [state.patient.scopes, evaluator.givenScopes]⟩ id
            ⟨∅, state.patient.cancellation⟩ = _ at same
          rw [same]
          cases result <;> exact Or.inl rfl
        · simp only at stopped
          subst stopped
          exact Or.inr ⟨impatient, rfl⟩

theorem lookUp_patient (id : NodeId) (name : String) (state : Progress) :
    evaluator.lookUp id name state.patient =
        ((evaluator.lookUp id name state).1, (evaluator.lookUp id name state).2.patient) ∨
      state.cancellation ≠ .never ∧ (evaluator.lookUp id name state).1 = .error .cancelled := by
  have answer := evaluator.resolve_patient id state
  unfold lookUp
  cases cut : evaluator.resolve id state with
  | mk result after =>
      rw [cut] at answer
      rcases answer with same | ⟨impatient, stopped⟩
      · rw [same]
        cases result with
        | error failure => exact Or.inl rfl
        | ok value =>
            have sameScope : evaluator.knownScope? after.patient id = evaluator.knownScope? after id :=
              rfl
            simp only [sameScope]
            cases evaluator.knownScope? after id <;> exact Or.inl rfl
      · simp only at stopped
        subst stopped
        exact Or.inr ⟨impatient, rfl⟩

/-- The first outcome is what an evaluation comes to under the cutoffs of the host, the second what
it comes to under none: it is cancelled, which takes a host that stops it, it is nested deeper than
the limit, or it comes to the same. -/
structure Curtails {α : Type} (limit : Nat) (before : Progress) (cut whole : Outcome α) : Prop where
  never : before.cancellation = .never → cut.2.cancellation = .never
  outcome : before.cancellation ≠ .never ∧ cut.1 = .error .cancelled ∨
    (∃ deep, cut.1 = .error (.depthExceeded deep limit)) ∨ whole = (cut.1, cut.2.patient)

namespace Curtails

variable {α : Type} {limit : Nat} {before between : Progress} {cut whole : Outcome α}

theorem since (kept : before.cancellation = .never → between.cancellation = .never)
    (rest : Curtails limit between cut whole) : Curtails limit before cut whole where
  never := fun never => rest.never (kept never)
  outcome := by
    rcases rest.outcome with ⟨impatient, stopped⟩ | further
    · exact Or.inl ⟨fun never => impatient (kept never), stopped⟩
    · exact Or.inr further

theorem andThen {β : Type} {next further : α → Progress → Outcome β}
    (asked : Curtails limit before cut whole)
    (onward : ∀ value after, Curtails limit after (next value after) (further value after.patient)) :
    Curtails limit before (Outcome.andThen cut next) (Outcome.andThen whole further) := by
  obtain ⟨result, after⟩ := cut
  cases result with
  | ok value =>
      rcases asked.outcome with ⟨_, stopped⟩ | ⟨_, exceeded⟩ | rfl
      · cases stopped
      · cases exceeded
      · exact (onward value after).since asked.never
  | error failure =>
      refine ⟨asked.never, ?_⟩
      rcases asked.outcome with ⟨impatient, stopped⟩ | ⟨deep, exceeded⟩ | rfl
      · exact Or.inl ⟨impatient, congrArg Except.error (Except.error.inj stopped)⟩
      · exact Or.inr (Or.inl ⟨deep, congrArg Except.error (Except.error.inj exceeded)⟩)
      · exact Or.inr (Or.inr rfl)

end Curtails

theorem lookUp_curtails (limit : Nat) (id : NodeId) (name : String) (state : Progress) :
    Curtails limit state (evaluator.lookUp id name state)
      (evaluator.lookUp id name state.patient) where
  never := lookUp_never
  outcome := by
    rcases evaluator.lookUp_patient id name state with same | stopped
    · exact Or.inr (Or.inr same)
    · exact Or.inl stopped

theorem run_curtails {limit other : Nat} {infer inferFurther : Node → Progress → Outcome Ty}
    (infers : ∀ node state,
      Curtails limit state (infer node state) (inferFurther node state.patient))
    {α : Type} (demand : Demand α) (state : Progress) :
    Curtails limit state (evaluator.run infer demand state)
      (Evaluator.run { evaluator with maxDepth := other } inferFurther demand state.patient) := by
  induction demand generalizing state with
  | answer value => exact ⟨fun never => never, Or.inr (Or.inr rfl)⟩
  | fail failure => exact ⟨fun never => never, Or.inr (Or.inr rfl)⟩
  | typeOf node next ih =>
      rw [run_typeOf, run_typeOf]
      exact (infers node state).andThen ih
  | binding id name next ih =>
      rw [run_binding, run_binding]
      exact (evaluator.lookUp_curtails limit id name state).andThen ih
  | poll next ih =>
      unfold run
      cases go : state.cancellation.poll with
      | ok cancellation =>
          exact (ih { state with cancellation }).since fun never => Cancellation.poll_never never go
      | error failure =>
          obtain ⟨impatient, rfl⟩ := Cancellation.poll_error go
          exact ⟨fun never => never, Or.inl ⟨impatient, rfl⟩⟩

theorem leave_curtails {limit : Nat} {before inner : Progress} {id : NodeId}
    {result : Except InspectionError Ty} {whole : Outcome Ty}
    (inside : Curtails limit (before.enter id) (result, inner) whole) :
    Curtails limit before (before.leave id result inner)
      (before.patient.leave id whole.1 whole.2) := by
  obtain ⟨types, left⟩ := before.leave_eq id result inner
  have passedOn : (before.leave id result inner).1 = result := by rw [left]
  refine ⟨fun never => ?_, ?_⟩
  · rw [left]
    exact inside.never never
  · rcases inside.outcome with ⟨impatient, stopped⟩ | ⟨deep, exceeded⟩ | same
    · exact Or.inl ⟨impatient, passedOn.trans stopped⟩
    · exact Or.inr (Or.inl ⟨deep, passedOn.trans exceeded⟩)
    · rw [same]
      exact Or.inr (Or.inr (before.leave_patient id result inner))

theorem inferWithin_curtails {limit levels more : Nat} (fewer : levels ≤ more) (node : Node)
    (state : Progress) :
    Curtails evaluator.maxDepth state (evaluator.inferWithin levels node state)
      (Evaluator.inferWithin { evaluator with maxDepth := limit } more node state.patient) := by
  induction levels using Nat.strongRecOn generalizing more node state with
  | ind levels ih =>
      have answers := evaluator.inferWithin_answers levels node state
      generalize evaluator.inferWithin levels node state = outcome at answers ⊢
      cases answers with
      | stopped go =>
          obtain ⟨impatient, rfl⟩ := Cancellation.poll_error go
          exact ⟨fun never => never, Or.inl ⟨impatient, rfl⟩⟩
      | @known _ cancellation ty go seen =>
          have whole := @inferWithin_known { evaluator with maxDepth := limit } node state.patient
            .never more ty rfl seen
          rw [whole]
          exact ⟨fun never => Cancellation.poll_never never go, Or.inr (Or.inr rfl)⟩
      | @cut _ cancellation enteredAt go unknown entry =>
          have whole := @inferWithin_cut { evaluator with maxDepth := limit } node state.patient
            .never more enteredAt rfl unknown entry
          rw [whole]
          exact ⟨fun never => Cancellation.poll_never never go, Or.inr (Or.inr rfl)⟩
      | tooDeep go _ _ =>
          exact ⟨fun never => Cancellation.poll_never never go, Or.inr (Or.inl ⟨node.id, rfl⟩)⟩
      | @entered levels cancellation result inner go unknown entry ran =>
          obtain ⟨further, rfl⟩ : ∃ further, more = further + 1 := ⟨more - 1, by omega⟩
          have inside := @run_curtails evaluator evaluator.maxDepth limit _ _
            (ih levels (Nat.lt_succ_self levels) (show levels ≤ further by omega)) Ty
            (evaluator.graph.typingRule node) ((state.polled cancellation).enter node.id)
          rw [ran] at inside
          have whole := @inferWithin_entered { evaluator with maxDepth := limit } node state.patient
            .never further _ _ rfl unknown entry rfl
          rw [whole]
          have left := leave_curtails inside
          exact left.since fun never => Cancellation.poll_never never go

end Evaluator

theorem inferType_cutoff (graph : Graph) (cache : InspectionCache) (id : NodeId) (maxDepth : Nat)
    (cancellation : Cancellation) :
    cancellation ≠ .never ∧
        (inferType graph id maxDepth cache cancellation).answer = .error .cancelled ∨
      maxDepth < graph.size ∧ (∃ deep, (inferType graph id maxDepth cache cancellation).answer =
        .error (.depthExceeded deep maxDepth)) ∨
      (inferType graph id maxDepth cache cancellation).answer =
          (inferType graph id graph.size cache .never).answer ∧
        (inferType graph id maxDepth cache cancellation).cache =
          (inferType graph id graph.size cache .never).cache := by
  cases found : graph.node id with
  | error failure => exact Or.inr (Or.inr (by simp [inferType_missing found]))
  | ok node =>
      have stored : graph.Stored node := ⟨id, Graph.node_eq_ok.mp found⟩
      -- The evaluation under cutoffs and the one under none are both compared with one that has as
      -- many levels as either.
      have cut := @Evaluator.inferWithin_curtails ⟨graph, maxDepth, cache.types, cache.scopes⟩
        (max maxDepth graph.size) maxDepth (max maxDepth graph.size) (by omega) node
        (.initial cancellation)
      have free := @Evaluator.inferWithin_curtails ⟨graph, graph.size, cache.types, cache.scopes⟩
        (max maxDepth graph.size) graph.size (max maxDepth graph.size) (by omega) node
        (.initial .never)
      have whole := (free.outcome.resolve_left fun stopped => stopped.1 rfl).resolve_left <| by
        rintro ⟨deep, exceeded⟩
        exact Evaluator.inferWithin_not_tooDeep stored (Nat.le_refl _) deep _ exceeded
      simp only [inferType_answer found, inferType_cache found]
      rcases cut.outcome with ⟨impatient, stopped⟩ | ⟨deep, exceeded⟩ | same
      · exact Or.inl ⟨impatient, stopped⟩
      · refine Or.inr (Or.inl ⟨?_, deep, exceeded⟩)
        by_contra enough
        exact Evaluator.inferWithin_not_tooDeep stored (Nat.le_of_not_lt enough) deep _ exceeded
      · have agree := same.symm.trans whole
        have answers := congrArg Prod.fst agree
        have caches := congrArg cache.commit agree
        exact Or.inr (Or.inr ⟨answers, caches⟩)

theorem inferType_failed {graph : Graph} {id : NodeId} {maxDepth : Nat} {cache : InspectionCache}
    {cancellation : Cancellation} {failure : InspectionError}
    (failed : (inferType graph id maxDepth cache cancellation).answer = .error failure) :
    (inferType graph id maxDepth cache cancellation).cache = cache := by
  simp only [inferType] at failed ⊢
  split at failed
  · cases failed
  · rfl

/-- Whatever the graph and the cache, a host that stops a request or limits its depth gets told so,
or gets what it would have got from a request that nothing holds back. A request that fails leaves
the cache as it is. -/
theorem requests_cutoff (graph : Graph) (cache : InspectionCache) (id : NodeId) (maxDepth : Nat)
    (cancellation : Cancellation) :
    ((cancellation ≠ .never ∧
        (inferType graph id maxDepth cache cancellation).answer = .error .cancelled ∨
      maxDepth < graph.size ∧ (∃ deep, (inferType graph id maxDepth cache cancellation).answer =
        .error (.depthExceeded deep maxDepth)) ∨
      (inferType graph id maxDepth cache cancellation).answer =
          (inferType graph id graph.size cache .never).answer ∧
        (inferType graph id maxDepth cache cancellation).cache =
          (inferType graph id graph.size cache .never).cache) ∧
      ∀ failure, (inferType graph id maxDepth cache cancellation).answer = .error failure →
        (inferType graph id maxDepth cache cancellation).cache = cache) ∧
    (cancellation ≠ .never ∧
        (resolveScopeInto graph id cache.scopes cancellation).answer = .error .cancelled ∨
      (resolveScopeInto graph id cache.scopes cancellation).answer =
          (resolveScopeInto graph id cache.scopes .never).answer ∧
        (resolveScopeInto graph id cache.scopes cancellation).cache =
          (resolveScopeInto graph id cache.scopes .never).cache) ∧
      ∀ failure, (resolveScopeInto graph id cache.scopes cancellation).answer = .error failure →
        (resolveScopeInto graph id cache.scopes cancellation).cache = cache.scopes :=
  ⟨⟨inferType_cutoff graph cache id maxDepth cancellation, fun _ failed => inferType_failed failed⟩,
    resolveScopeInto_cutoff graph id cache.scopes cancellation,
    fun _ failed => resolveScopeInto_failed failed⟩

/-- A cache that has resolved one node of the formula, and a host that stops a request for a type at
its last poll, limits another, and stops a resolution. -/
theorem letSample_cutoff :
    let cache := InspectionCache.afterRequests letSample [.resolve 3 .never]
    (∃ failure, (inferType letSample 35 100 cache (.after 13)).answer = .error failure ∧
      (inferType letSample 35 100 cache (.after 13)).cache = cache) ∧
    (∃ failure, (inferType letSample 35 5 cache .never).answer = .error failure ∧
      (inferType letSample 35 5 cache .never).cache = cache) ∧
    ∃ failure, (resolveScopeInto letSample 7 cache.scopes (.after 4)).answer = .error failure ∧
      (resolveScopeInto letSample 7 cache.scopes (.after 4)).cache = cache.scopes := by
  intro cache
  have failing : ∀ {α : Type} {answer : Except InspectionError α}, answer.isOk = false →
      ∃ failure, answer = .error failure := by
    intro α answer failed
    cases answer with
    | ok value => simp [Except.isOk, Except.toBool] at failed
    | error failure => exact ⟨failure, rfl⟩
  obtain ⟨stop, stopped⟩ := failing
    (show (inferType letSample 35 100 cache (.after 13)).answer.isOk = false by decide +kernel)
  obtain ⟨limit, limited⟩ := failing
    (show (inferType letSample 35 5 cache .never).answer.isOk = false by decide +kernel)
  obtain ⟨halt, broken⟩ := failing
    (show (resolveScopeInto letSample 7 cache.scopes (.after 4)).answer.isOk = false by
      decide +kernel)
  exact ⟨⟨stop, stopped, (requests_cutoff letSample cache 35 100 (.after 13)).1.2 stop stopped⟩,
    ⟨limit, limited, (requests_cutoff letSample cache 35 5 .never).1.2 limit limited⟩,
    ⟨halt, broken, (requests_cutoff letSample cache 7 5 (.after 4)).2.2 halt broken⟩⟩

end FormulaInspection
