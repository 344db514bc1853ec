import FormulaInspection.Proofs.ScopeCache

/-!
What a name is bound to does not depend on which scopes are known. A scope can be known only where
all the nodes above can be read, so a look-up that finds a known scope would have found it anew.
-/

namespace FormulaInspection

namespace Graph

variable {graph : Graph}

def Readable (graph : Graph) (id : NodeId) : Prop :=
  ∀ high, graph.Stored high → Relation.TransGen graph.IsParent id high.id →
    graph.bindingReads high = .ok ()

def Grounded (graph : Graph) (scopes : Scopes) : Prop :=
  ∀ id ∈ scopes, graph.Readable id

theorem grounded_empty : graph.Grounded ∅ := by
  intro id known
  simp at known

theorem Grounded.union {scopes others : Scopes} (grounded : graph.Grounded scopes)
    (otherGrounded : graph.Grounded others) : graph.Grounded (scopes ∪ others) := by
  intro id known
  rcases Std.ExtTreeMap.mem_union_iff.mp known with earlier | later
  · exact grounded id earlier
  · exact otherGrounded id later

theorem readable_root {id : NodeId} (noParent : graph.parentId? id = none) :
    graph.Readable id := by
  intro high _ above
  obtain ⟨parent, link, _⟩ := Relation.TransGen.head'_iff.mp above
  simp [IsParent, noParent] at link

theorem Readable.child (tree : graph.TreeShaped) {parent child : Node}
    (readable : graph.Readable parent.id) (stored : graph.Stored parent)
    (reads : graph.bindingReads parent = .ok ()) (childOf : graph.ChildOf parent.id child) :
    graph.Readable child.id := by
  intro high highStored above
  obtain ⟨next, link, higher⟩ := Relation.TransGen.head'_iff.mp above
  obtain rfl := isParent_rightUnique (childOf.isParent tree) link
  rcases Relation.reflTransGen_iff_eq_or_transGen.mp higher with same | strictly
  · rw [tree.stored_eq highStored stored same]
    exact reads
  · exact readable high highStored strictly

theorem ElementAt.readable (tree : graph.TreeShaped) {owner element : Node} {slot : Nat}
    (readable : graph.Readable owner.id) (stored : graph.Stored owner)
    (reads : graph.bindingReads owner = .ok ()) (held : graph.ElementAt owner.id slot element) :
    graph.Readable element.id := by
  obtain ⟨wrapper, place, kind, element⟩ := held
  have wrapperReads := readable.child tree stored reads place.childOf
  have wrapperBinds := @bindingReads_other graph wrapper (by rw [kind]; rfl)
  cases element with
  | plain childOf _ => exact wrapperReads.child tree place.childOf.stored wrapperBinds childOf
  | @cell cell _ childOf isCell inSlot =>
      have cellReads := wrapperReads.child tree place.childOf.stored wrapperBinds childOf
      exact cellReads.child tree childOf.stored (bindingReads_other (by rw [isCell]; rfl))
        inSlot.childOf

theorem Binds.readable (tree : graph.TreeShaped) {outer node : Node} {items : Scope}
    (binds : graph.Binds outer node items) (readable : graph.Readable outer.id)
    (reads : graph.bindingReads outer = .ok ()) : graph.Readable node.id := by
  cases binds with
  | eachBody stored _ read => exact readable.child tree stored reads (childSlot_some read).childOf
  | functionBody stored _ read _ =>
      exact readable.child tree stored reads (childSlot_some read).childOf
  | letBody stored _ inSlot _ => exact readable.child tree stored reads inSlot.childOf
  | @pairValue pairs pair stored listed member hasValue =>
      obtain ⟨reading, owned⟩ := ownedPairs_facts stored listed member
      have pairReadable : graph.Readable pair.pair.id := by
        cases owned with
        | element held => exact held.readable tree readable stored reads
        | member held isMember inMember =>
            exact (held.readable tree readable stored reads).child tree held.stored
              (bindingReads_other (by rw [isMember]; rfl)) inMember.childOf
      have pairBinds : pair.pair.kind.bindsNames = false := by
        have kind := reading.kind
        simp only [NodeKind.pairKinds, List.mem_cons, List.not_mem_nil, or_false] at kind
        rcases kind with kind | kind | kind <;> simp [kind, NodeKind.bindsNames]
      exact pairReadable.child tree owned.stored (bindingReads_other pairBinds)
        (reading.value hasValue).childOf

theorem TreeShaped.grounded (tree : graph.TreeShaped) : ScopeInvariant graph graph.Grounded := by
  refine @scopeInvariant graph tree _ (fun _ node => graph.Readable node.id) grounded_empty
    Grounded.union (fun node noParent => readable_root noParent) ?_
  intro given node next? delta after stored reads widens grounded readable
  refine ⟨fun id known => ?_, fun next childOf => readable.child tree stored reads childOf⟩
  rcases widens.known known with ⟨bound, items, binds, rfl⟩ | rfl | before
  · exact binds.readable tree readable reads
  · exact readable
  · exact grounded id before

end Graph

namespace Graph

variable {graph : Graph}

def bindingAt (graph : Graph) (id : NodeId) (name : String) :
    Except InspectionError (Option ScopeItem) :=
  (resolveScope graph id none .never).1.map fun scopes => NameMap.get? (scopes[id]?.getD []) name

theorem bindingAt_eq (tree : graph.TreeShaped) (id : NodeId) (name : String) :
    graph.bindingAt id name =
      (Resolver.inspect ⟨graph, []⟩ id ⟨∅, .never⟩).1.map fun _ =>
        NameMap.get? (graph.lexicalScope id) name := by
  unfold bindingAt
  cases resolved : (resolveScope graph id none .never).1 with
  | ok scopes =>
      have facts := resolveScope_faithful tree (by simp) resolved
      rw [Except.map, facts.scope facts.known]
      rcases resolveScope_eq_ok resolved with ⟨known, _⟩ | ⟨_, final, inspected, _⟩
      · simp at known
      · simp only [Option.toList] at inspected
        rw [inspected]
        rfl
  | error failure =>
      simp only [resolveScope, Option.getD_none, Std.ExtTreeMap.contains_empty, Bool.false_eq_true,
        if_false, Option.toList] at resolved
      split at resolved
      · simp at resolved
      · rename_i stop final inspected
        obtain rfl := Except.error.inj resolved
        rw [inspected]
        rfl

theorem inspect_of_readable (tree : graph.TreeShaped) {node : Node} (stored : graph.Stored node)
    (readable : graph.Readable node.id) (reads : graph.bindingReads node = .ok ()) :
    (Resolver.inspect ⟨graph, []⟩ node.id ⟨∅, .never⟩).1 = .ok () := by
  have outcome := congrArg Prod.fst (@Resolver.inspect_outcome ⟨graph, []⟩ node.id rfl .never)
  have found := tree.stored_iff.mp stored
  obtain ⟨above, path, _⟩ :=
    tree.exists_rootPath (show (graph.node? node.id).isSome by simp [found])
  simp only [Cancellation.never_poll, tree.ancestry_eq found path] at outcome
  rw [outcome]
  refine walkReads_ok fun other member => ?_
  rcases List.mem_cons.mp (List.mem_reverse.mp member) with rfl | higher
  · exact reads
  · exact readable other (path.stored higher) ((path.mem_iff tree).mp ⟨other, higher, rfl⟩)

end Graph

theorem Node.UsesNames.bindsNames {node : Node} (uses : node.UsesNames) :
    node.kind.bindsNames = false := by
  rcases uses with kind | kind | kind | kind <;> rw [kind] <;> rfl

namespace Evaluator

variable {evaluator : Evaluator}

/-- A look-up finds what would be found without any known scopes, unless the host stops it. -/
theorem lookUp_eq (tree : evaluator.graph.TreeShaped)
    (given : evaluator.graph.Faithful evaluator.givenScopes)
    (givenGrounded : evaluator.graph.Grounded evaluator.givenScopes) {node : Node}
    (stored : evaluator.graph.Stored node) (uses : node.UsesNames) (name : String)
    {state : Progress} (faithful : evaluator.graph.Faithful state.scopes)
    (grounded : evaluator.graph.Grounded state.scopes) :
    (evaluator.lookUp node.id name state).1 = evaluator.graph.bindingAt node.id name ∨
      state.cancellation ≠ .never ∧
        (evaluator.lookUp node.id name state).1 = .error .cancelled := by
  rw [Graph.bindingAt_eq tree]
  cases known : evaluator.knownScope? state node.id with
  | some scope =>
      have readable : evaluator.graph.Readable node.id := by
        rcases Option.or_eq_some_iff.mp known with held | ⟨_, held⟩
        · exact grounded node.id (by simp [Std.ExtTreeMap.mem_iff_isSome_getElem?, held])
        · exact givenGrounded node.id (by simp [Std.ExtTreeMap.mem_iff_isSome_getElem?, held])
      rw [Graph.inspect_of_readable tree stored readable
        (Graph.bindingReads_other uses.bindsNames)]
      left
      simp [lookUp, resolve, known, knownScope?_faithful given faithful known, Except.map]
  | none =>
      have unknown : state.scopes[node.id]? = none ∧ evaluator.givenScopes[node.id]? = none := by
        simpa [knownScope?] using known
      have answer := @Resolver.inspect_cutoff
        ⟨evaluator.graph, [state.scopes, evaluator.givenScopes]⟩ node.id
        (by simp [Resolver.given?, unknown]) state.cancellation
      simp only at answer
      cases inspected : Resolver.inspect
          ⟨evaluator.graph, [state.scopes, evaluator.givenScopes]⟩ node.id
          ⟨∅, state.cancellation⟩ with
      | mk result resolution =>
          simp only [inspected] at answer
          cases result with
          | error failure =>
              have failed : (evaluator.lookUp node.id name state).1 = .error failure := by
                simp [lookUp, resolve, known, inspected]
              rw [failed]
              rcases answer with same | ⟨impatient, stopped⟩
              · left
                rw [← same]
                rfl
              · obtain rfl := Except.error.inj stopped
                exact Or.inr ⟨impatient, rfl⟩
          | ok value =>
              have resolved : evaluator.resolve node.id state =
                  (.ok (), { state with
                    scopes := state.scopes ∪ resolution.delta
                    cancellation := resolution.cancellation }) := by
                simp [resolve, known, inspected]
              rw [lookUp_resolved tree given faithful resolved]
              have same := answer.resolve_right fun stopped => by simp at stopped
              rw [← same]
              exact Or.inl rfl

end Evaluator

end FormulaInspection
