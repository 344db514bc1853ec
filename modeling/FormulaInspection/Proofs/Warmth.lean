import FormulaInspection.Proofs.Bookkeeping
import FormulaInspection.Proofs.Steadiness

/-!
Whether a cache is warm makes no difference, as long as choices are steady. A type is remembered
only if no cycle was met on the way to it. Where what a node asks for does not change, there is then
no way back from the node to one that the evaluation is inside of, and its type is the same wherever
it is asked for.
-/

namespace FormulaInspection

namespace Graph

variable {graph : Graph}

/-- There is a way from the node back to one of the nodes of `stack`, the first that the way meets
and entered at the depth. -/
inductive Returns (graph : Graph) (stack : List NodeId) : Node → Nat → Prop
  | here {node : Node} {depth : Nat} : enteredAt stack node.id = some depth →
      Returns graph stack node depth
  | onward {node next : Node} {depth : Nat} : node.id ∉ stack → graph.Asks node next →
      Returns graph stack next depth → Returns graph stack node depth

theorem Returns.lt {stack : List NodeId} {node : Node} {depth : Nat}
    (returns : graph.Returns stack node depth) : depth < stack.length := by
  induction returns with
  | here entered => exact enteredAt_lt entered
  | onward _ _ _ ih => exact ih

theorem Returns.reaches {stack : List NodeId} {node : Node} {depth : Nat}
    (returns : graph.Returns stack node depth) :
    ∃ low, Relation.ReflTransGen graph.Asks node low ∧ low.id ∈ stack := by
  induction returns with
  | @here node depth entered =>
      refine ⟨node, .refl, ?_⟩
      by_contra outside
      rw [enteredAt_eq_none.mpr outside] at entered
      simp at entered
  | onward _ asks _ ih =>
      obtain ⟨low, path, inside⟩ := ih
      exact ⟨low, .head asks path, inside⟩

theorem returns_of_asks {stack : List NodeId} {node low : Node}
    (path : Relation.ReflTransGen graph.Asks node low) (inside : low.id ∈ stack) :
    ∃ depth, graph.Returns stack node depth := by
  have stops : ∀ {node : Node}, node.id ∈ stack → ∃ depth, graph.Returns stack node depth := by
    intro node member
    cases entered : enteredAt stack node.id with
    | none => exact absurd member (enteredAt_eq_none.mp entered)
    | some depth => exact ⟨depth, .here entered⟩
  induction path using Relation.ReflTransGen.head_induction_on with
  | refl => exact stops inside
  | @head node next asks _ ih =>
      by_cases member : node.id ∈ stack
      · exact stops member
      · obtain ⟨depth, returns⟩ := ih
        exact ⟨depth, .onward member asks returns⟩

theorem Returns.inside (tree : graph.TreeShaped) {stack : List NodeId} {top node : Node}
    {depth : Nat} (topStored : graph.Stored top) (topFresh : top.id ∉ stack)
    (stored : graph.Stored node) (returns : graph.Returns stack node depth) :
    graph.Returns (top.id :: stack) node depth ∨
      ∃ next, graph.Asks top next ∧ graph.Returns (top.id :: stack) next depth := by
  induction returns with
  | @here node depth entered =>
      have different : top.id ≠ node.id := by
        intro same
        rw [← same, enteredAt_eq_none.mpr topFresh] at entered
        simp at entered
      exact Or.inl (.here (by simp [enteredAt, different, entered]))
  | @onward node next depth fresh asks _ ih =>
      rcases ih asks.stored with further | through
      · by_cases same : node.id = top.id
        · -- The way meets the new node here, so what is left of it begins at a node that it asks for.
          obtain rfl := tree.stored_eq stored topStored same
          exact Or.inr ⟨next, asks, further⟩
        · exact Or.inl (.onward (by simp [same, fresh]) asks further)
      · exact Or.inr through

theorem Returns.entered (tree : graph.TreeShaped) {stack : List NodeId} {node : Node} {depth : Nat}
    (stored : graph.Stored node) (fresh : node.id ∉ stack)
    (returns : graph.Returns stack node depth) :
    ∃ next, graph.Asks node next ∧ graph.Returns (node.id :: stack) next depth := by
  cases returns with
  | here entered =>
      rw [enteredAt_eq_none.mpr fresh] at entered
      simp at entered
  | onward _ asks rest =>
      rcases rest.inside tree stored fresh asks.stored with further | through
      · exact ⟨_, asks, further⟩
      · exact through

/-- The node is on no cycle and has the type wherever an evaluation comes to it from. -/
structure Settles (graph : Graph) (node : Node) (ty : Ty) : Prop where
  acyclic : ¬Relation.TransGen graph.Asks node node
  typed : ∀ {stack : List NodeId}, graph.Reached stack node → graph.typeInside stack node = .ok ty

theorem Settles.no_return (tree : graph.TreeShaped) {stack : List NodeId} {node : Node} {ty : Ty}
    {depth : Nat} (settles : graph.Settles node ty) (reached : graph.Reached stack node) :
    ¬graph.Returns stack node depth := by
  intro returns
  obtain ⟨low, path, inside⟩ := returns.reaches
  have back := reached.asks tree (stored_of_asks reached.stored path) inside
  exact settles.acyclic (Relation.TransGen.trans_right path back)

theorem settles_of_no_return (tree : graph.TreeShaped) {stack : List NodeId} {node : Node} {ty : Ty}
    (reached : graph.Reached stack node) (fresh : node.id ∉ stack)
    (typed : graph.typeInside stack node = .ok ty)
    (noReturn : ∀ next depth, graph.Asks node next → ¬graph.Returns (node.id :: stack) next depth) :
    graph.Settles node ty := by
  -- Nothing that an evaluation comes to from the node is one of the nodes it is inside of now, or
  -- of those that it may be inside of elsewhere: such a node would lead back to the node itself.
  have away : ∀ low, Relation.TransGen graph.Asks node low → low.id ∉ node.id :: stack := by
    intro low path inside
    obtain ⟨next, asks, rest⟩ := Relation.TransGen.head'_iff.mp path
    obtain ⟨depth, returns⟩ := returns_of_asks rest inside
    exact noReturn next depth asks returns
  have acyclic : ¬Relation.TransGen graph.Asks node node := fun cycle => away node cycle (by simp)
  refine ⟨acyclic, ?_⟩
  intro other otherReached
  rw [← typed]
  refine (typeInside_congr reached otherReached ?_ (Nat.le_add_right graph.size stack.length)).symm
  intro low path
  refine iff_of_false ?_ ?_
  · rcases Relation.reflTransGen_iff_eq_or_transGen.mp path with rfl | strictly
    · exact fresh
    · exact fun inside => away low strictly (List.mem_cons_of_mem _ inside)
  · intro inside
    have back := otherReached.asks tree (stored_of_asks reached.stored path) inside
    exact acyclic (Relation.TransGen.trans_right path back)

def Settled (graph : Graph) (types : IdMap Ty) : Prop :=
  ∀ node ty, graph.Stored node → types[node.id]? = some ty → graph.Settles node ty

theorem Settled.insert (tree : graph.TreeShaped) {types : IdMap Ty} {node : Node} {ty : Ty}
    (settled : graph.Settled types) (stored : graph.Stored node) (settles : graph.Settles node ty) :
    graph.Settled (types.insert node.id ty) := by
  intro other found otherStored hit
  simp only [Std.ExtTreeMap.getElem?_insert, Std.compare_eq_iff_eq] at hit
  split at hit
  · rename_i same
    obtain rfl := tree.stored_eq stored otherStored same
    obtain rfl := Option.some.inj hit
    exact settles
  · exact settled other found otherStored hit

theorem Settled.union {types others : IdMap Ty} (settled : graph.Settled types)
    (otherSettled : graph.Settled others) : graph.Settled (types ∪ others) := by
  intro node ty stored hit
  rw [Std.ExtTreeMap.getElem?_union] at hit
  cases later : others[node.id]? with
  | some found =>
      rw [later] at hit
      exact otherSettled node ty stored (later.trans hit)
  | none =>
      rw [later] at hit
      exact settled node ty stored hit

end Graph

structure InspectionCache.Sound (graph : Graph) (cache : InspectionCache) : Prop where
  settled : graph.Settled cache.types
  faithful : graph.Faithful cache.scopes
  grounded : graph.Grounded cache.scopes

namespace Evaluator

variable {evaluator : Evaluator} {patient : Prop}

structure Intact (graph : Graph) (patient : Prop) (stack : List NodeId) (state : Progress) :
    Prop where
  tracks : graph.Tracks stack state
  never : patient → state.cancellation = .never
  sound : InspectionCache.Sound graph ⟨state.types, state.scopes⟩

/-- An evaluation comes to what is expected, unless the host cuts it off. Where it answers, all
cycles that go back to nodes it is inside of are on record. -/
def Agrees {α : Type} (graph : Graph) (patient : Prop) (stack : List NodeId) (before : Progress)
    (expected : Except InspectionError α) (returns : Nat → Prop) (outcome : Outcome α) : Prop :=
  match outcome.1 with
  | .ok value =>
    expected = .ok value ∧ Intact graph patient stack outcome.2 ∧
      ∀ depth, Noted before.cycleDepth? depth ∨ returns depth → Noted outcome.2.cycleDepth? depth
  | .error failure => expected = .error failure ∨ ¬patient

theorem Agrees.andThen {α β : Type} {stack : List NodeId} {before : Progress}
    {expected : Except InspectionError α} {whole : Except InspectionError β}
    {returns later : Nat → Prop} {outcome : Outcome α} {next : α → Progress → Outcome β}
    (agrees : Agrees evaluator.graph patient stack before expected returns outcome)
    (fails : ∀ failure, expected = .error failure → whole = .error failure)
    (goes : ∀ value after, expected = .ok value → Intact evaluator.graph patient stack after →
      ∃ further, Agrees evaluator.graph patient stack after whole further (next value after) ∧
        ∀ depth, later depth → returns depth ∨ further depth) :
    Agrees evaluator.graph patient stack before whole later (Outcome.andThen outcome next) := by
  obtain ⟨result, between⟩ := outcome
  cases result with
  | error failure => exact agrees.imp_left (fails failure)
  | ok value =>
      obtain ⟨found, intact, noted⟩ := agrees
      obtain ⟨further, rest, covered⟩ := goes value between found intact
      simp only [Outcome.andThen]
      generalize next value between = final at rest ⊢
      obtain ⟨answer, after⟩ := final
      cases answer with
      | error failure => exact rest
      | ok value =>
          refine ⟨rest.1, rest.2.1, ?_⟩
          rintro depth (earlier | back)
          · exact rest.2.2 depth (Or.inl (noted depth (Or.inl earlier)))
          · rcases covered depth back with first | second
            · exact rest.2.2 depth (Or.inl (noted depth (Or.inr first)))
            · exact rest.2.2 depth (Or.inr second)

/-- Names are asked for only at nodes that bind none, so a scope that is known is one that could have
been resolved anew. -/
theorem lookUp_agrees (tree : evaluator.graph.TreeShaped)
    (given : InspectionCache.Sound evaluator.graph ⟨evaluator.givenTypes, evaluator.givenScopes⟩)
    {stack : List NodeId} {node : Node} {name : String} {state : Progress}
    (stored : evaluator.graph.Stored node) (uses : node.UsesNames)
    (intact : Intact evaluator.graph patient stack state) :
    Agrees evaluator.graph patient stack state
      ((evaluator.graph.oracle stack).binding node.id name) (fun _ => False)
      (evaluator.lookUp node.id name state) := by
  have answer := lookUp_eq tree given.faithful given.grounded stored uses name
    intact.sound.faithful intact.sound.grounded
  have faithful := tree.faithful.lookUp given.faithful node.id name intact.sound.faithful
  have grounded := tree.grounded.lookUp given.grounded node.id name intact.sound.grounded
  have never := fun isPatient => @lookUp_never evaluator node.id name state (intact.never isPatient)
  obtain ⟨scopes, cancellation, frame⟩ := evaluator.lookUp_frame node.id name state
  generalize evaluator.lookUp node.id name state = outcome at *
  obtain ⟨result, after⟩ := outcome
  simp only at answer faithful grounded never frame
  subst frame
  cases result with
  | error failure =>
      rcases answer with same | ⟨impatient, _⟩
      · exact Or.inl same.symm
      · exact Or.inr fun isPatient => impatient (intact.never isPatient)
  | ok item? =>
      have same := answer.resolve_right fun stopped => by simp at stopped
      refine ⟨same.symm, ⟨intact.tracks.congr rfl rfl, never, intact.sound.settled, faithful,
        grounded⟩, ?_⟩
      rintro depth (noted | impossible)
      · exact noted
      · exact impossible.elim

theorem run_agrees (tree : evaluator.graph.TreeShaped)
    (given : InspectionCache.Sound evaluator.graph ⟨evaluator.givenTypes, evaluator.givenScopes⟩)
    {stack : List NodeId} {infer : Node → Progress → Outcome Ty}
    (agrees : ∀ node state, evaluator.graph.Reached stack node →
      Intact evaluator.graph patient stack state →
      Agrees evaluator.graph patient stack state (evaluator.graph.typeInside stack node)
        (evaluator.graph.Returns stack node) (infer node state))
    {α : Type} {post : α → Prop} {demand : Demand α} {state : Progress}
    (keeps : demand.Keeps (evaluator.graph.ruleContract True) post)
    (reached : ∀ node ∈ demand.asked (evaluator.graph.oracle stack),
      evaluator.graph.Reached stack node)
    (intact : Intact evaluator.graph patient stack state) :
    Agrees evaluator.graph patient stack state (demand.settle (evaluator.graph.oracle stack))
      (fun depth => ∃ next ∈ demand.asked (evaluator.graph.oracle stack),
        evaluator.graph.Returns stack next depth)
      (evaluator.run infer demand state) := by
  induction demand generalizing state with
  | answer value =>
      refine ⟨rfl, intact, ?_⟩
      rintro depth (noted | ⟨next, member, _⟩)
      · exact noted
      · simp [Demand.asked] at member
  | fail failure => exact Or.inl rfl
  | typeOf node next ih =>
      rw [run_typeOf]
      have asked : Agrees evaluator.graph patient stack state
          ((evaluator.graph.oracle stack).typeOf node) (evaluator.graph.Returns stack node)
          (infer node state) := agrees node state (reached node Demand.mem_asked_typeOf) intact
      refine asked.andThen (fun failure untyped => by simp [Demand.settle, untyped]) ?_
      intro ty after told stillIntact
      simp only [Demand.settle, Demand.asked, told, List.forall_mem_cons] at reached ⊢
      refine ⟨_, ih ty (keeps.2 ty) reached.2 stillIntact, ?_⟩
      rintro depth ⟨other, member, returns⟩
      rcases List.mem_cons.mp member with rfl | later
      · exact Or.inl returns
      · exact Or.inr ⟨other, later, returns⟩
  | binding id name next ih =>
      obtain ⟨node, stored, rfl, uses⟩ := keeps.1
      rw [run_binding]
      refine (lookUp_agrees tree given stored uses intact).andThen
        (fun failure unbound => by simp [Demand.settle, unbound]) ?_
      intro item? after told stillIntact
      simp only [Demand.settle, Demand.asked, told] at reached ⊢
      exact ⟨_, ih item? (keeps.2 item? fun noFault => absurd trivial noFault) reached stillIntact,
        fun depth back => Or.inr back⟩
  | poll next ih =>
      unfold run
      cases go : state.cancellation.poll with
      | error failure =>
          exact Or.inr fun isPatient => (Cancellation.poll_error go).1 (intact.never isPatient)
      | ok cancellation =>
          have stillIntact : Intact evaluator.graph patient stack { state with cancellation } :=
            ⟨intact.tracks.congr rfl rfl,
              fun isPatient => Cancellation.poll_never (intact.never isPatient) go, intact.sound⟩
          exact ih keeps reached stillIntact

theorem leave_agrees (tree : evaluator.graph.TreeShaped) (steady : evaluator.graph.SteadyChoices)
    {stack : List NodeId} {node : Node} {before inner : Progress}
    {result : Except InspectionError Ty} (reached : evaluator.graph.Reached stack node)
    (fresh : node.id ∉ stack) (depth : before.depth = stack.length)
    (inside : Agrees evaluator.graph patient (node.id :: stack) (before.enter node.id)
      (evaluator.graph.typeInside stack node)
      (fun depth => ∃ next ∈ evaluator.graph.askedBy stack node,
        evaluator.graph.Returns (node.id :: stack) next depth) (result, inner)) :
    Agrees evaluator.graph patient stack before (evaluator.graph.typeInside stack node)
      (evaluator.graph.Returns stack node) (before.leave node.id result inner) := by
  cases result with
  | error failure => exact inside
  | ok ty =>
      obtain ⟨typed, intact, noted⟩ := inside
      have recorded : ∀ next depth, evaluator.graph.Asks node next →
          evaluator.graph.Returns (node.id :: stack) next depth → Noted inner.cycleDepth? depth := by
        intro next depth asks returns
        exact noted depth (Or.inr ⟨next, steady.asked reached fresh typed asks, returns⟩)
      have tracks := Graph.Tracks.leave before (.ok ty) intact.tracks
      rw [Progress.leave_ok] at tracks ⊢
      refine ⟨typed, ⟨tracks, intact.never, ?_, intact.sound.faithful, intact.sound.grounded⟩, ?_⟩
      · simp only
        split
        · exact intact.sound.settled
        · rename_i silent
          refine intact.sound.settled.insert tree reached.stored
            (Graph.settles_of_no_return tree reached fresh typed fun next depth asks returns => ?_)
          obtain ⟨shallow, found, _⟩ := recorded next depth asks returns
          simp [found] at silent
      · intro back found
        simp only [noted_shallowest]
        rcases found with earlier | returns
        · exact Or.inl earlier
        · -- A way back that goes further out than the node is not dropped with it.
          obtain ⟨next, asks, further⟩ := returns.entered tree reached.stored fresh
          have outside : back < before.depth := by
            rw [depth]
            exact returns.lt
          exact Or.inr (noted_filter (recorded next back asks further) outside)

theorem inferWithin_agrees (tree : evaluator.graph.TreeShaped)
    (steady : evaluator.graph.SteadyChoices)
    (given : InspectionCache.Sound evaluator.graph ⟨evaluator.givenTypes, evaluator.givenScopes⟩)
    {levels : Nat} {stack : List NodeId} {node : Node} {state : Progress}
    (reached : evaluator.graph.Reached stack node)
    (intact : Intact evaluator.graph patient stack state)
    (enough : patient → evaluator.graph.size ≤ levels + stack.length) :
    Agrees evaluator.graph patient stack state (evaluator.graph.typeInside stack node)
      (evaluator.graph.Returns stack node) (evaluator.inferWithin levels node state) := by
  induction levels using Nat.strongRecOn generalizing stack node state with
  | ind levels ih =>
      have polled : ∀ {cancellation}, state.cancellation.poll = .ok cancellation →
          Intact evaluator.graph patient stack (state.polled cancellation) := by
        intro cancellation go
        exact ⟨intact.tracks.congr rfl rfl,
          fun isPatient => Cancellation.poll_never (intact.never isPatient) go, intact.sound⟩
      have answers := evaluator.inferWithin_answers levels node state
      generalize evaluator.inferWithin levels node state = outcome at answers ⊢
      cases answers with
      | stopped go =>
          exact Or.inr fun isPatient => (Cancellation.poll_error go).1 (intact.never isPatient)
      | @known _ cancellation ty go seen =>
          have settles : evaluator.graph.Settles node ty := by
            rcases Option.or_eq_some_iff.mp seen with found | ⟨_, found⟩
            · exact intact.sound.settled node ty reached.stored found
            · exact given.settled node ty reached.stored found
          refine ⟨settles.typed reached, polled go, ?_⟩
          rintro depth (noted | returns)
          · exact noted
          · exact absurd returns (settles.no_return tree reached)
      | @cut _ cancellation entryDepth go _ entry =>
          rw [intact.tracks.entered] at entry
          have inside : node.id ∈ stack := by
            by_contra outside
            rw [enteredAt_eq_none.mpr outside] at entry
            simp at entry
          refine ⟨Graph.typeInside_cut inside,
            ⟨intact.tracks.congr rfl rfl, (polled go).never, intact.sound⟩, ?_⟩
          intro depth found
          simp only [Progress.noteCycle, noted_shallowest]
          rcases found with noted | returns
          · exact Or.inl noted
          · cases returns with
            | here entered =>
                obtain rfl := Option.some.inj (entry.symm.trans entered)
                exact Or.inr ⟨_, rfl, Nat.le_refl _⟩
            | onward outside _ _ => exact absurd inside outside
      | tooDeep go _ entry =>
          have room := reached.room (intact.tracks.not_mem entry)
          refine Or.inr fun isPatient => ?_
          have levelLeft := enough isPatient
          omega
      | @entered levels cancellation result inner go _ entry ran =>
          have fresh := intact.tracks.not_mem entry
          have entering : Intact evaluator.graph patient (node.id :: stack)
              ((state.polled cancellation).enter node.id) :=
            ⟨(polled go).tracks.enter reached.stored fresh, (polled go).never, intact.sound⟩
          have inside := run_agrees tree given
            (fun other between otherReached otherIntact =>
              ih levels (Nat.lt_succ_self levels) otherReached otherIntact
                (fun isPatient => by
                  have levelLeft := enough isPatient
                  simp only [List.length_cons]
                  omega))
            (Graph.typingRule_keeps (fun noFault => absurd trivial noFault) reached.stored)
            (fun next member => .asked reached fresh member) entering
          rw [ran, ← Graph.typeInside_entered fresh (reached.room fresh)] at inside
          exact leave_agrees tree steady reached fresh (polled go).tracks.depth inside

theorem inferWithin_initial_agrees (tree : evaluator.graph.TreeShaped)
    (steady : evaluator.graph.SteadyChoices)
    (given : InspectionCache.Sound evaluator.graph ⟨evaluator.givenTypes, evaluator.givenScopes⟩)
    {levels : Nat} {node : Node} (stored : evaluator.graph.Stored node)
    {cancellation : Cancellation} (never : patient → cancellation = .never)
    (enough : patient → evaluator.graph.size ≤ levels) :
    Agrees evaluator.graph patient [] (.initial cancellation) (evaluator.graph.typeInside [] node)
      (evaluator.graph.Returns [] node)
      (evaluator.inferWithin levels node (.initial cancellation)) := by
  have nothing : evaluator.graph.Settled ∅ := by
    intro other ty _ found
    simp at found
  exact inferWithin_agrees tree steady given (.start stored) ⟨Graph.tracks_initial cancellation,
    never, nothing, Graph.faithful_empty, Graph.grounded_empty⟩ enough

end Evaluator

namespace InspectionCache

variable {graph : Graph}

theorem sound_empty : Sound graph .empty where
  settled := by
    intro node ty _ found
    simp [InspectionCache.empty] at found
  faithful := Graph.faithful_empty
  grounded := Graph.grounded_empty

theorem Sound.serve (tree : graph.TreeShaped) (steady : graph.SteadyChoices)
    {cache : InspectionCache} (sound : Sound graph cache) (request : Request) :
    Sound graph (cache.serve graph request) where
  faithful := serve_keeps tree.faithful request sound.faithful
  grounded := serve_keeps tree.grounded request sound.grounded
  settled := by
    cases request with
    | resolve root cancellation => exact sound.settled
    | infer id maxDepth cancellation =>
        simp only [InspectionCache.serve]
        cases found : graph.node id with
        | error failure =>
            rw [inferType_missing found]
            exact sound.settled
        | ok node =>
            have agrees := @Evaluator.inferWithin_initial_agrees
              ⟨graph, maxDepth, cache.types, cache.scopes⟩ False tree steady sound maxDepth node
              ⟨id, Graph.node_eq_ok.mp found⟩ cancellation False.elim False.elim
            rw [inferType_cache found]
            cases inferred : Evaluator.inferWithin ⟨graph, maxDepth, cache.types, cache.scopes⟩
                maxDepth node (.initial cancellation) with
            | mk result state =>
                rw [inferred] at agrees
                cases result with
                | error failure => exact sound.settled
                | ok ty => exact sound.settled.union agrees.2.1.sound.settled

theorem sound_afterRequests (tree : graph.TreeShaped) (steady : graph.SteadyChoices)
    (requests : List Request) : Sound graph (afterRequests graph requests) :=
  afterRequests_induction sound_empty (fun _ request sound => sound.serve tree steady request)
    requests

theorem Sound.inferType (tree : graph.TreeShaped) (steady : graph.SteadyChoices)
    {cache : InspectionCache} (sound : Sound graph cache) (id : NodeId) {maxDepth : Nat}
    (enough : graph.size ≤ maxDepth) :
    (inferType graph id maxDepth cache .never).answer =
      (graph.node id).bind (graph.typeInside []) := by
  cases found : graph.node id with
  | error failure =>
      rw [inferType_missing found]
      rfl
  | ok node =>
      have agrees := @Evaluator.inferWithin_initial_agrees
        ⟨graph, maxDepth, cache.types, cache.scopes⟩ True tree steady sound maxDepth node
        ⟨id, Graph.node_eq_ok.mp found⟩ .never (fun _ => rfl) (fun _ => enough)
      rw [inferType_answer found]
      cases inferred : Evaluator.inferWithin ⟨graph, maxDepth, cache.types, cache.scopes⟩ maxDepth
          node (.initial .never) with
      | mk result state =>
          rw [inferred] at agrees
          cases result with
          | ok ty => exact agrees.1.symm
          | error failure => exact (agrees.resolve_right fun impatient => impatient trivial).symm

end InspectionCache

/-- Where choices are steady, whatever a cache has been used for before, a node gets the type that
it gets without it. -/
theorem inferType_afterRequests {graph : Graph} (tree : graph.TreeShaped)
    (steady : graph.SteadyChoices) (requests : List Request) (id : NodeId) {maxDepth : Nat}
    (enough : graph.size ≤ maxDepth) :
    (inferType graph id maxDepth (InspectionCache.afterRequests graph requests) .never).answer =
      (inferType graph id maxDepth .empty .never).answer := by
  have warm := InspectionCache.sound_afterRequests tree steady requests
  rw [warm.inferType tree steady id enough,
    InspectionCache.sound_empty.inferType tree steady id enough]

/-- The formula `let a = [x = b], b = if true then [y = a] else 0 in b`. -/
def steadySample : Graph :=
  (show Build NodeId from do
    let useB ← Builder.identifierExpression "b"
    let first ← Builder.recordExpression [("x", useB)]
    let condition ← Builder.logicalLiteral true
    let useA ← Builder.identifierExpression "a"
    let record ← Builder.recordExpression [("y", useA)]
    let number ← Builder.numericLiteral "0"
    let choice ← Builder.ifExpression condition record number
    let body ← Builder.identifierExpression "b"
    Builder.letExpression [("a", first), ("b", choice)] body).run .empty |>.2.graph

theorem steadySample_warm :
    steadySample.TreeShaped ∧ steadySample.SteadyChoices ∧
      (inferType steadySample 21 41
          (InspectionCache.afterRequests steadySample
            [.infer 10 41 .never, .infer 26 41 .never, .resolve 5 .never, .infer 99 41 .never])
          .never).answer =
        (inferType steadySample 21 41 .empty .never).answer := by
  have tree : steadySample.TreeShaped := by decide +kernel
  have literal : ∀ choice ∈ steadySample.storedNodes, choice.kind = .ifExpression →
      ∀ condition ∈ (steadySample.requiredChild? choice Slot.ifCondition).toOption.join,
        condition.kind = .literalExpression := by
    decide +kernel
  have steady : steadySample.SteadyChoices := by
    refine Graph.steadyChoices_of_silent tree fun choice condition stored isIf read => ?_
    have kind := literal choice (Graph.mem_storedNodes.mpr stored) isIf condition (by rw [read]; rfl)
    unfold Graph.typingRule
    rw [kind]
    exact Graph.literalType_silent condition
  exact ⟨tree, steady, inferType_afterRequests tree steady _ 21 (by decide +kernel)⟩

/-- The formula `let m = [p = y], y = [a = x, b = u], x = if (try y[b] otherwise v) then m else 0
in x`. -/
def choiceSample : Graph :=
  (show Build NodeId from do
    let useY ← Builder.identifierExpression "y"
    let m ← Builder.recordExpression [("p", useY)]
    let useX ← Builder.identifierExpression "x"
    let u ← Builder.identifierExpression "u"
    let y ← Builder.recordExpression [("a", useX), ("b", u)]
    let head ← Builder.identifierExpression "y"
    let selector ← Builder.fieldSelector "b" false
    let field ← Builder.recursivePrimary head [selector]
    let v ← Builder.identifierExpression "v"
    let handler ← Builder.ast .otherwiseExpression .none [(Slot.paired, v)]
    let condition ← Builder.ast .errorHandlingExpression .none
      [(Slot.protectedExpression, field), (Slot.otherwiseHandler, handler)]
    let useM ← Builder.identifierExpression "m"
    let number ← Builder.numericLiteral "0"
    let x ← Builder.ifExpression condition useM number
    let body ← Builder.identifierExpression "x"
    Builder.letExpression [("m", m), ("y", y), ("x", x)] body).run .empty |>.2.graph

/-- Asked for from `m`, the condition of the choice leads back to `y`, where it is cut short, and no
branch is taken. So nothing leads back to `m`, whose type is remembered. Asked for by itself, the
choice takes the branch that is `m`, and gets another type with what is remembered than without. -/
theorem choiceSample_warmth :
    choiceSample.TreeShaped ∧ choiceSample.size = 66 ∧
      ∃ fresh warm, (inferType choiceSample 46 66 .empty .never).answer = .ok fresh ∧
        (inferType choiceSample 46 66
          (InspectionCache.afterRequests choiceSample [.infer 10 66 .never]) .never).answer =
            .ok warm ∧
        fresh.same warm = false := by
  have answered : ∀ {answer : Except InspectionError Ty} {value},
      answer.toOption = some value → answer = .ok value := by
    intro answer value known
    cases answer with
    | error failure => simp [Except.toOption] at known
    | ok found => rw [Option.some.inj known]
  have differ : ((inferType choiceSample 46 66 .empty .never).answer.toOption.bind fun fresh =>
      (inferType choiceSample 46 66
        (InspectionCache.afterRequests choiceSample [.infer 10 66 .never])
        .never).answer.toOption.map fun warm => fresh.same warm) = some false := by
    decide +kernel
  obtain ⟨fresh, freshAnswer, rest⟩ := Option.bind_eq_some_iff.mp differ
  obtain ⟨warm, warmAnswer, other⟩ := Option.map_eq_some_iff.mp rest
  exact ⟨by decide +kernel, by decide +kernel, fresh, warm, answered freshAnswer,
    answered warmAnswer, other⟩

end FormulaInspection
