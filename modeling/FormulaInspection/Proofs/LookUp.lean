import FormulaInspection.Inference.Evaluator
import FormulaInspection.Proofs.ResolutionOutcome

/-!
Looking names up. As long as the scopes that an evaluator knows are lexical, it answers what the
lexical scope of the node says, and the scopes stay lexical.
-/

namespace FormulaInspection

structure ScopeInvariant (graph : Graph) (holds : Scopes → Prop) : Prop where
  empty : holds ∅
  union : ∀ {scopes others}, holds scopes → holds others → holds (scopes ∪ others)
  resolved : ∀ {given root cancellation final}, (∀ layer ∈ given, holds layer) →
    Resolver.inspect ⟨graph, given⟩ root ⟨∅, cancellation⟩ = (.ok (), final) → holds final.delta

/-- What every visit keeps, a walk keeps. Each visit may rely on what the visit before it has
established for the children of its node. -/
theorem Resolver.walk_induction {resolver : Resolver} (tree : resolver.graph.TreeShaped)
    {holds : Scopes → Prop} {visitable : Scopes → Node → Prop}
    (step : ∀ {node next? delta after}, resolver.graph.Stored node →
      resolver.graph.bindingReads node = .ok () → resolver.Widens node next? delta after →
      holds delta → visitable delta node →
      holds after ∧ ∀ next, resolver.graph.ChildOf node.id next → visitable after next)
    {path : List Node} {state final : Resolution}
    (chain : path.IsChain fun node next => resolver.graph.ChildOf node.id next)
    (stored : ∀ node ∈ path, resolver.graph.Stored node)
    (first : ∀ node ∈ path.head?, visitable state.delta node) (held : holds state.delta)
    (walked : resolver.walk path state = (.ok (), final)) : holds final.delta := by
  induction path generalizing state with
  | nil =>
      simp only [walk, Prod.mk.injEq, true_and] at walked
      rw [← walked]
      exact held
  | cons node rest ih =>
      obtain ⟨onward, restChain⟩ := List.isChain_cons.mp chain
      have nodeStored := stored node (by simp)
      unfold walk at walked
      split at walked
      · simp at walked
      · split at walked
        · rename_i after visited
          have reads : resolver.graph.bindingReads node = .ok () := by
            have failure := @visit_failure resolver node rest.head? state.delta
            rw [visited] at failure
            cases read : resolver.graph.bindingReads node with
            | ok value => rfl
            | error defect => simp [read] at failure
          have widens := visit_widens tree nodeStored (fun next same => onward next same) visited
          obtain ⟨kept, children⟩ := step nodeStored reads widens held (first node (by simp))
          exact ih restChain (fun other member => stored other (List.mem_cons_of_mem _ member))
            (fun next isNext => children next (onward next isNext)) kept walked
        · simp at walked

theorem Graph.TreeShaped.scopeInvariant {graph : Graph} (tree : graph.TreeShaped)
    {holds : Scopes → Prop} {visitable : Scopes → Node → Prop} (empty : holds ∅)
    (union : ∀ {scopes others}, holds scopes → holds others → holds (scopes ∪ others))
    (root : ∀ node, graph.parentId? node.id = none → visitable ∅ node)
    (step : ∀ given {node next? delta after}, graph.Stored node →
      graph.bindingReads node = .ok () → Resolver.Widens ⟨graph, given⟩ node next? delta after →
      holds delta → visitable delta node →
      holds after ∧ ∀ next, graph.ChildOf node.id next → visitable after next) :
    ScopeInvariant graph holds where
  empty := empty
  union := union
  resolved := by
    intro given start cancellation final _ inspected
    rcases @Resolver.inspect_eq_ok ⟨graph, given⟩ tree start cancellation final inspected with
      ⟨_, nothing⟩ |
        ⟨node, above, first, rest, polled, found, rootPath, reversed, noParent, walked⟩
    · rw [nothing]
      exact empty
    · have descent := rootPath.descent tree found
      rw [reversed] at descent
      refine @Resolver.walk_induction ⟨graph, given⟩ tree holds visitable (step given)
        (first :: rest) ⟨∅, polled⟩ final descent.chain (fun node member => descent.stored member)
        ?_ empty walked
      intro top isTop
      obtain rfl := Option.some.inj isTop
      exact root _ noParent

theorem Graph.TreeShaped.faithful {graph : Graph} (tree : graph.TreeShaped) :
    ScopeInvariant graph graph.Faithful where
  empty := Graph.faithful_empty
  union := Graph.Faithful.union
  resolved := by
    intro given root cancellation final trusted inspected
    have facts := @Resolver.inspect_faithful ⟨graph, given⟩ tree trusted root cancellation final
    exact (facts inspected).1

theorem Evaluator.lookUp_state (evaluator : Evaluator) (id : NodeId) (name : String)
    (state : Progress) : (evaluator.lookUp id name state).2 = (evaluator.resolve id state).2 := by
  unfold lookUp
  cases evaluator.resolve id state with
  | mk result after =>
      cases result with
      | error failure => rfl
      | ok value =>
          simp only
          split <;> rfl

namespace ScopeInvariant

variable {evaluator : Evaluator} {holds : Scopes → Prop}

theorem resolve (invariant : ScopeInvariant evaluator.graph holds)
    (given : holds evaluator.givenScopes) (id : NodeId) {state : Progress}
    (held : holds state.scopes) : holds (evaluator.resolve id state).2.scopes := by
  unfold Evaluator.resolve
  split
  · exact held
  · split
    · exact held
    · rename_i resolution inspected
      refine invariant.union held (invariant.resolved ?_ inspected)
      intro layer member
      rcases List.mem_pair.mp member with rfl | rfl
      · exact held
      · exact given

theorem lookUp (invariant : ScopeInvariant evaluator.graph holds)
    (given : holds evaluator.givenScopes) (id : NodeId) (name : String) {state : Progress}
    (held : holds state.scopes) : holds (evaluator.lookUp id name state).2.scopes := by
  rw [Evaluator.lookUp_state]
  exact invariant.resolve given id held

end ScopeInvariant

namespace Evaluator

variable {evaluator : Evaluator}

theorem lookUp_frame (evaluator : Evaluator) (id : NodeId) (name : String) (state : Progress) :
    ∃ scopes cancellation,
      (evaluator.lookUp id name state).2 = { state with scopes, cancellation } := by
  rw [lookUp_state]
  unfold resolve
  split
  · exact ⟨_, _, rfl⟩
  · split <;> exact ⟨_, _, rfl⟩

theorem lookUp_never {id : NodeId} {name : String} {state : Progress}
    (never : state.cancellation = .never) :
    (evaluator.lookUp id name state).2.cancellation = .never := by
  have left := @Resolver.inspect_never ⟨evaluator.graph, [state.scopes, evaluator.givenScopes]⟩ id
  rw [lookUp_state]
  unfold resolve
  rw [never]
  split
  · exact never
  · split
    · rename_i inspected
      rw [inspected] at left
      exact left
    · rename_i inspected
      rw [inspected] at left
      exact left

theorem resolve_failure {fault : Prop} (sound : ¬fault → evaluator.graph.ShapeCorrect)
    {id : NodeId} {state after : Progress} {failure : InspectionError}
    (stored : ¬fault → (evaluator.graph.node? id).isSome)
    (failed : evaluator.resolve id state = (.error failure, after)) :
    state.cancellation ≠ .never ∧ failure = .cancelled ∨ fault ∧ failure.IsDefect := by
  unfold resolve at failed
  split at failed
  · cases failed
  · split at failed
    · rename_i stop final inspected
      simp only [Prod.mk.injEq, Except.error.injEq] at failed
      rw [← failed.1]
      exact Resolver.inspect_failure sound stored inspected
    · cases failed

theorem lookUp_failure {fault : Prop} (sound : ¬fault → evaluator.graph.ShapeCorrect) {id : NodeId}
    {name : String} {state after : Progress} {failure : InspectionError}
    (stored : ¬fault → (evaluator.graph.node? id).isSome)
    (failed : evaluator.lookUp id name state = (.error failure, after)) :
    (state.cancellation ≠ .never ∧ failure = .cancelled ∨ fault ∧ failure.IsDefect) ∨
      failure = .missingScope id := by
  unfold lookUp at failed
  split at failed
  · rename_i reason between unresolved
    simp only [Prod.mk.injEq, Except.error.injEq] at failed
    rw [← failed.1]
    exact Or.inl (resolve_failure sound stored unresolved)
  · split at failed
    · cases failed
    · simp only [Prod.mk.injEq, Except.error.injEq] at failed
      exact Or.inr failed.1.symm

theorem knownScope?_faithful (given : evaluator.graph.Faithful evaluator.givenScopes)
    {state : Progress} (faithful : evaluator.graph.Faithful state.scopes) {id : NodeId}
    {scope : Scope} (known : evaluator.knownScope? state id = some scope) :
    scope = evaluator.graph.lexicalScope id := by
  unfold knownScope? at known
  rcases Option.or_eq_some_iff.mp known with found | ⟨_, found⟩
  · exact faithful id scope found
  · exact given id scope found

theorem resolve_known (keyed : evaluator.graph.Keyed) {id : NodeId} {state after : Progress}
    (resolved : evaluator.resolve id state = (.ok (), after)) :
    (evaluator.knownScope? after id).isSome := by
  unfold resolve at resolved
  split at resolved
  · rename_i known
    simp only [Prod.mk.injEq, true_and] at resolved
    rw [← resolved]
    exact known
  · rename_i unknown
    split at resolved
    · cases resolved
    · rename_i resolution inspected
      simp only [Prod.mk.injEq, true_and] at resolved
      subst resolved
      have absent : state.scopes[id]? = none ∧ evaluator.givenScopes[id]? = none := by
        simpa [knownScope?] using unknown
      obtain ⟨path, climbed, reached⟩ :=
        Resolver.inspect_reaches inspected (by simp [Resolver.given?, absent])
      obtain ⟨node, above, rfl, found, -⟩ := Graph.ancestry_eq_ok climbed
      have written : id ∈ resolution.delta := keyed found ▸ reached node List.mem_cons_self
      simp only [knownScope?, Option.isSome_or, Bool.or_eq_true]
      rw [← Std.ExtTreeMap.mem_iff_isSome_getElem?]
      exact Or.inl (Std.ExtTreeMap.mem_union_iff.mpr (Or.inr written))

theorem lookUp_resolved (tree : evaluator.graph.TreeShaped)
    (given : evaluator.graph.Faithful evaluator.givenScopes) {id : NodeId} {state after : Progress}
    (faithful : evaluator.graph.Faithful state.scopes)
    (resolved : evaluator.resolve id state = (.ok (), after)) (name : String) :
    evaluator.lookUp id name state =
      (.ok (NameMap.get? (evaluator.graph.lexicalScope id) name), after) := by
  have resolvedFaithful := tree.faithful.resolve given id faithful
  rw [resolved] at resolvedFaithful
  obtain ⟨scope, known⟩ :=
    Option.isSome_iff_exists.mp (resolve_known tree.ownId resolved)
  simp only [lookUp, resolved, known]
  rw [knownScope?_faithful given resolvedFaithful known]

theorem lookUp_ok (tree : evaluator.graph.TreeShaped)
    (given : evaluator.graph.Faithful evaluator.givenScopes) {id : NodeId} {name : String}
    {state after : Progress} {item? : Option ScopeItem}
    (faithful : evaluator.graph.Faithful state.scopes)
    (found : evaluator.lookUp id name state = (.ok item?, after)) :
    item? = NameMap.get? (evaluator.graph.lexicalScope id) name := by
  cases resolved : evaluator.resolve id state with
  | mk result between =>
      cases result with
      | error failure => simp [lookUp, resolved] at found
      | ok value =>
          rw [lookUp_resolved tree given faithful resolved] at found
          simp only [Prod.mk.injEq, Except.ok.injEq] at found
          exact found.1.symm

theorem lookUp_defect (keyed : evaluator.graph.Keyed) {fault : Prop}
    (sound : ¬fault → evaluator.graph.ShapeCorrect) {id : NodeId} {name : String}
    {state after : Progress} {failure : InspectionError}
    (stored : ¬fault → (evaluator.graph.node? id).isSome)
    (failed : evaluator.lookUp id name state = (.error failure, after)) :
    state.cancellation ≠ .never ∧ failure = .cancelled ∨ fault ∧ failure.IsDefect := by
  cases resolved : evaluator.resolve id state with
  | mk result between =>
      cases result with
      | error reason =>
          simp only [lookUp, resolved, Prod.mk.injEq, Except.error.injEq] at failed
          rw [← failed.1]
          exact resolve_failure sound stored resolved
      | ok value =>
          obtain ⟨scope, known⟩ := Option.isSome_iff_exists.mp (resolve_known keyed resolved)
          simp [lookUp, resolved, known] at failed

end Evaluator

end FormulaInspection
