import FormulaInspection.Proofs.LookUp

/-!
What names are bound to is there. This needs no tree: as long as nodes are stored under their own
ids, a resolution binds names to nodes of the graph, however the nodes are linked.
-/

namespace FormulaInspection

theorem Graph.PairReading.item_pointsInto {graph : Graph} (keyed : graph.Keyed)
    {pair : KeyValuePair} (reading : graph.PairReading pair) (owner : NodeKind)
    (isRecursive : Bool) :
    (owner.pairItem pair.key pair.keyNode.id (pair.value?.map Node.id) isRecursive).PointsInto
      graph := by
  have valueStored : ∀ value, pair.value?.map Node.id = some value →
      (graph.node? value).isSome := by
    intro value written
    obtain ⟨node, hasValue, rfl⟩ := Option.map_eq_some_iff.mp written
    simp [(Graph.Keyed.stored_iff keyed).mp (reading.value hasValue).childOf.stored]
  unfold NodeKind.pairItem
  split <;> exact valueStored

namespace Graph

variable {graph : Graph}

theorem Binds.pointsInto (keyed : graph.Keyed) {outer node : Node} {items : Scope}
    (binds : graph.Binds outer node items) : ∀ entry ∈ items, entry.2.PointsInto graph := by
  intro entry member
  cases binds with
  | eachBody stored _ _ =>
      obtain rfl := List.mem_singleton.mp member
      simp [ScopeItem.PointsInto, (Keyed.stored_iff keyed).mp stored]
  | functionBody _ _ _ _ =>
      obtain ⟨parameter, _, rfl⟩ := List.mem_map.mp member
      trivial
  | @letBody pairs stored kind _ listed =>
      obtain ⟨pair, inPairs, rfl⟩ := List.mem_map.mp member
      have owned : graph.ownedPairs outer = .ok pairs := by
        rw [ownedPairs, kind]
        exact listed
      have reading := (ownedPairs_facts stored owned inPairs).1
      exact reading.item_pointsInto keyed .letExpression false
  | @pairValue pairs pair stored listed inPairs hasValue =>
      have readings : ∀ other ∈ pairs, graph.PairReading other :=
        fun other inOthers => (ownedPairs_facts stored listed inOthers).1
      obtain ⟨other, inOthers, rfl⟩ := List.mem_map.mp member
      split
      · have points := (readings pair inPairs).item_pointsInto keyed outer.kind true
        rwa [hasValue] at points
      · exact (readings other inOthers).item_pointsInto keyed outer.kind false

def Backed (graph : Graph) (scopes : Scopes) : Prop :=
  ∀ (id : NodeId) scope, scopes[id]? = some scope → ∀ entry ∈ scope, entry.2.PointsInto graph

theorem backed_empty : graph.Backed ∅ := by
  intro id scope found
  simp at found

theorem Backed.insert {scopes : Scopes} (backed : graph.Backed scopes) {id : NodeId}
    {scope : Scope} (points : ∀ entry ∈ scope, entry.2.PointsInto graph) :
    graph.Backed (scopes.insert id scope) := by
  intro other found hit
  rw [Std.ExtTreeMap.getElem?_insert] at hit
  split at hit
  · rw [← Option.some.inj hit]
    exact points
  · exact backed other found hit

theorem Backed.union {scopes others : Scopes} (backed : graph.Backed scopes)
    (othersBacked : graph.Backed others) : graph.Backed (scopes ∪ others) := by
  intro id scope found
  rw [Std.ExtTreeMap.getElem?_union] at found
  rcases Option.or_eq_some_iff.mp found with late | ⟨-, early⟩
  · exact othersBacked id scope late
  · exact backed id scope early

end Graph

namespace Resolver

variable {resolver : Resolver} {delta after : Scopes}

section

variable (given : ∀ layer ∈ resolver.given, resolver.graph.Backed layer)

include given

theorem currentScope_pointsInto (backed : resolver.graph.Backed delta) {id : NodeId}
    {default? : Option Scope}
    (points : ∀ scope ∈ default?, ∀ entry ∈ scope, entry.2.PointsInto resolver.graph) :
    ∀ entry ∈ resolver.currentScope delta id default?, entry.2.PointsInto resolver.graph := by
  have givenPoints : ∀ {other scope}, resolver.given? other = some scope →
      ∀ entry ∈ scope, entry.2.PointsInto resolver.graph := by
    intro other scope found
    obtain ⟨layer, member, hit⟩ := List.exists_of_findSome?_eq_some found
    exact given layer member other scope hit
  intro entry member
  unfold currentScope at member
  cases held : delta[id]? with
  | some scope =>
      rw [held] at member
      exact backed id scope held entry member
  | none =>
      simp only [held, Option.getD_none, initialScope] at member
      split at member
      · rename_i scope isGiven
        exact givenPoints isGiven entry member
      · split at member
        · exact points _ rfl entry member
        · split at member
          · rename_i parent _
            cases above : delta[parent]?.or (resolver.given? parent) with
            | none => simp [above] at member
            | some scope =>
                rw [above] at member
                rcases Option.or_eq_some_iff.mp above with written | ⟨-, isGiven⟩
                · exact backed parent scope written entry member
                · exact givenPoints isGiven entry member
          · simp at member

theorem touch_backed (backed : resolver.graph.Backed delta) (id : NodeId) :
    resolver.graph.Backed (resolver.touch delta id) :=
  backed.insert (currentScope_pointsInto given backed (by simp))

theorem expand_backed (backed : resolver.graph.Backed delta) (id : NodeId)
    {items default : Scope} (points : ∀ entry ∈ items, entry.2.PointsInto resolver.graph)
    (defaultPoints : ∀ entry ∈ default, entry.2.PointsInto resolver.graph) :
    resolver.graph.Backed (resolver.expand delta id items default) := by
  refine backed.insert fun entry member => ?_
  rcases NameMap.mem_setAll member with old | new
  · exact currentScope_pointsInto given backed (by simpa using defaultPoints) entry old
  · exact points entry new

theorem expandAll_backed (backed : resolver.graph.Backed delta) {scope : Scope}
    (scopePoints : ∀ entry ∈ scope, entry.2.PointsInto resolver.graph)
    {targets : List (Node × Scope)}
    (points : ∀ target ∈ targets, ∀ entry ∈ target.2, entry.2.PointsInto resolver.graph) :
    resolver.graph.Backed (resolver.expandAll scope targets delta) := by
  induction targets generalizing delta with
  | nil => exact backed
  | cons target rest ih =>
      obtain ⟨first, others⟩ := List.forall_mem_cons.mp points
      exact ih (expand_backed given backed target.1.id first scopePoints) others

end

def Supplies (resolver : Resolver) (node : Node) (delta after : Scopes) : Prop :=
  ∃ targets : List (Node × Scope),
    (∀ target ∈ targets, ∀ entry ∈ target.2, entry.2.PointsInto resolver.graph) ∧
    after = resolver.expandAll (resolver.currentScope delta node.id none) targets
      (resolver.touch delta node.id)

section

variable (keyed : resolver.graph.Keyed) {node : Node} {next? : Option Node}

include keyed

theorem Widens.supplies (widens : resolver.Widens node next? delta after) :
    resolver.Supplies node delta after := by
  obtain ⟨targets, extend, rfl⟩ := widens
  exact ⟨targets, fun target member => (extend.binds member).pointsInto keyed, rfl⟩

variable (stored : resolver.graph.Stored node)

include stored

theorem visitPairs_supplies {pairs : List KeyValuePair}
    (listed : resolver.graph.ownedPairs node = .ok pairs) :
    resolver.Supplies node delta
      (resolver.visitPairs node pairs (node.kind == .section) delta) := by
  refine ⟨valueTargets pairs (node.kind == .section), ?_, by rw [visitPairs, expandValues_eq]⟩
  exact fun target member => (valueTargets_binds stored listed member).pointsInto keyed

/-- What comes next on the way may be no child of the `let` here, so this is no case of
`visitLet_widens`. -/
theorem visitLet_supplies {pairs : List KeyValuePair} (kind : node.kind = .letExpression)
    (listed : resolver.graph.ownedPairs node = .ok pairs) :
    resolver.Supplies node delta (resolver.visitLet node next? pairs delta) := by
  unfold visitLet
  split
  · rename_i body _
    refine ⟨[(body, _)], List.forall_mem_singleton.mpr fun entry member => ?_, rfl⟩
    obtain ⟨pair, inPairs, rfl⟩ := List.mem_map.mp member
    have reading := (Graph.ownedPairs_facts stored listed inPairs).1
    exact reading.item_pointsInto keyed .letExpression false
  · have supplies := @visitPairs_supplies resolver delta keyed node stored pairs listed
    rwa [kind] at supplies

theorem visit_supplies (visited : resolver.visit node next? delta = ⟨after, none⟩) :
    resolver.Supplies node delta after := by
  by_cases isOwner :
      node.kind = .recordExpression ∨ node.kind = .recordLiteral ∨ node.kind = .section
  · obtain ⟨pairs, listed, rfl⟩ := visit_owner isOwner visited
    exact visitPairs_supplies keyed stored listed
  · unfold visit at visited
    split at visited
    · rename_i kind
      have widens : resolver.Widens node next? delta after := visitEach_widens stored kind visited
      exact widens.supplies keyed
    · rename_i kind
      have widens : resolver.Widens node next? delta after :=
        visitFunction_widens stored kind visited
      exact widens.supplies keyed
    · rename_i kind
      split at visited
      · simp at visited
      · rename_i pairs listed
        simp only [Visit.mk.injEq, and_true] at visited
        rw [← visited]
        refine visitLet_supplies keyed stored kind ?_
        rw [Graph.ownedPairs, kind]
        exact listed
    · exact absurd (Or.inl ‹_›) isOwner
    · exact absurd (Or.inr (Or.inl ‹_›)) isOwner
    · exact absurd (Or.inr (Or.inr ‹_›)) isOwner
    · simp only [Visit.mk.injEq, and_true] at visited
      exact ⟨[], by simp, visited.symm⟩

end

theorem Supplies.backed {node : Node}
    (given : ∀ layer ∈ resolver.given, resolver.graph.Backed layer)
    (supplies : resolver.Supplies node delta after) (backed : resolver.graph.Backed delta) :
    resolver.graph.Backed after := by
  obtain ⟨targets, points, rfl⟩ := supplies
  exact expandAll_backed given (touch_backed given backed node.id)
    (currentScope_pointsInto given backed (by simp)) points

theorem walk_backed (keyed : resolver.graph.Keyed)
    (given : ∀ layer ∈ resolver.given, resolver.graph.Backed layer) {path : List Node}
    (stored : ∀ node ∈ path, resolver.graph.Stored node) {state final : Resolution}
    (backed : resolver.graph.Backed state.delta)
    (walked : resolver.walk path state = (.ok (), final)) :
    resolver.graph.Backed final.delta := by
  induction path generalizing state with
  | nil =>
      simp only [walk, Prod.mk.injEq, true_and] at walked
      rw [← walked]
      exact backed
  | cons node rest ih =>
      obtain ⟨nodeStored, restStored⟩ := List.forall_mem_cons.mp stored
      unfold walk at walked
      split at walked
      · simp at walked
      · split at walked
        · rename_i visited
          exact ih restStored ((visit_supplies keyed nodeStored visited).backed given backed)
            walked
        · simp at walked

end Resolver

theorem Graph.Keyed.scopeInvariant {graph : Graph} (keyed : graph.Keyed) :
    ScopeInvariant graph graph.Backed where
  empty := backed_empty
  union := Backed.union
  resolved := by
    intro given root cancellation final trusted inspected
    rcases @Resolver.inspect_walked ⟨graph, given⟩ root cancellation final inspected with
      ⟨-, nothing⟩ | ⟨path, polled, climbed, walked⟩
    · rw [nothing]
      exact backed_empty
    · obtain ⟨node, above, rfl, found, rootPath⟩ := Graph.ancestry_eq_ok climbed
      refine @Resolver.walk_backed ⟨graph, given⟩ keyed trusted _ ?_ _ final backed_empty walked
      intro other member
      rcases List.mem_cons.mp (List.mem_reverse.mp member) with rfl | isAbove
      · exact ⟨root, found⟩
      · exact rootPath.stored isAbove

end FormulaInspection
