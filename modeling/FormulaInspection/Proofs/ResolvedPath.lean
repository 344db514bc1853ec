import FormulaInspection.Proofs.PositionFilter
import FormulaInspection.Proofs.ScopeCache

/-!
How far up the known scopes reach. A resolution writes the scopes of a whole path, and on the way
those of nodes beside it, the values of the pairs it comes past. What lies between such a value and
the path is not written. A later request for the value finds it and goes no further, so the path
from there is known only if the pair of the value is.
-/

namespace FormulaInspection

inductive Gathered (graph : Graph) : Scopes → Prop
  | empty : Gathered graph ∅
  | resolved {given root cancellation scopes} : Gathered graph given →
      (resolveScope graph root (some given) cancellation).1 = .ok scopes → Gathered graph scopes

theorem Gathered.keeps {graph : Graph} {holds : Scopes → Prop}
    (invariant : ScopeInvariant graph holds) {scopes : Scopes} (gathered : Gathered graph scopes) :
    holds scopes := by
  induction gathered with
  | empty => exact invariant.empty
  | @resolved given root cancellation scopes _ found ih =>
      rcases resolveScope_eq_ok found with ⟨_, rfl⟩ | ⟨_, final, inspected, rfl⟩
      · exact ih
      · refine invariant.union ih (invariant.resolved ?_ inspected)
        intro layer member
        obtain rfl := List.mem_singleton.mp member
        exact ih

namespace Graph

variable {graph : Graph} {scopes others : Scopes}

def Rooted (graph : Graph) (scopes : Scopes) (id : NodeId) : Prop :=
  ∀ high, graph.Below id high → high ∈ scopes

theorem Rooted.mono {id : NodeId} (rooted : graph.Rooted scopes id)
    (kept : ∀ other ∈ scopes, other ∈ others) : graph.Rooted others id :=
  fun high below => kept high (rooted high below)

theorem rooted_of_above {id : NodeId} (known : id ∈ scopes)
    (above : ∀ high, Relation.TransGen graph.IsParent id high → high ∈ scopes) :
    graph.Rooted scopes id := by
  intro high below
  rcases Relation.reflTransGen_iff_eq_or_transGen.mp below with rfl | strictly
  · exact known
  · exact above high strictly

theorem Rooted.above_child {child parent : NodeId} (rooted : graph.Rooted scopes parent)
    (link : graph.IsParent child parent) (high : NodeId)
    (strictly : Relation.TransGen graph.IsParent child high) : high ∈ scopes := by
  obtain ⟨next, toNext, below⟩ := Relation.TransGen.head'_iff.mp strictly
  obtain rfl := isParent_rightUnique link toNext
  exact rooted high below

theorem Rooted.child {child parent : NodeId} (rooted : graph.Rooted scopes parent)
    (link : graph.IsParent child parent) (known : child ∈ scopes) : graph.Rooted scopes child :=
  rooted_of_above known (rooted.above_child link)

def ValueOf (graph : Graph) (owner : Node) (id : NodeId) : Prop :=
  graph.Stored owner ∧ ∃ pairs, graph.ownedPairs owner = .ok pairs ∧
    ∃ pair ∈ pairs, ∃ value, pair.value? = some value ∧ value.id = id

theorem Binds.place (tree : graph.TreeShaped) {outer node : Node} {items : Scope}
    (binds : graph.Binds outer node items) :
    graph.IsParent node.id outer.id ∨ graph.ValueOf outer node.id := by
  cases binds with
  | eachBody _ _ read => exact Or.inl ((childSlot_some read).childOf.isParent tree)
  | functionBody _ _ read _ => exact Or.inl ((childSlot_some read).childOf.isParent tree)
  | letBody _ _ inSlot _ => exact Or.inl (inSlot.childOf.isParent tree)
  | pairValue stored listed member hasValue =>
      exact Or.inr ⟨stored, _, listed, _, member, _, hasValue, rfl⟩

theorem ValueOf.parent (tree : graph.TreeShaped) {owner : Node} {id : NodeId}
    (value : graph.ValueOf owner id) :
    ∃ pair, graph.PairOwner owner.id owner.kind.pairsSlot pair ∧ pair.kind ∈ NodeKind.pairKinds ∧
      graph.IsParent id pair.id := by
  obtain ⟨stored, pairs, listed, pair, member, held, hasValue, rfl⟩ := value
  obtain ⟨reading, owned⟩ := ownedPairs_facts stored listed member
  exact ⟨pair.pair, owned, reading.kind, (reading.value hasValue).childOf.isParent tree⟩

theorem PairOwner.parent (tree : graph.TreeShaped) {owner : NodeId} {slot : Nat} {pair : Node}
    (owned : graph.PairOwner owner slot pair) :
    ∃ parent, graph.Stored parent ∧ graph.IsParent pair.id parent.id ∧
      parent.kind ∉ NodeKind.pairKinds := by
  cases owned with
  | element held =>
      obtain ⟨wrapper, place, kind, held⟩ := held
      cases held with
      | plain childOf _ =>
          exact ⟨wrapper, place.childOf.stored, childOf.isParent tree, by
            simp [kind, NodeKind.pairKinds]⟩
      | @cell cell _ childOf isCell inCell =>
          exact ⟨cell, childOf.stored, inCell.childOf.isParent tree, by
            simp [isCell, NodeKind.pairKinds]⟩
  | @member member held isMember inMember =>
      exact ⟨member, held.stored, inMember.childOf.isParent tree, by
        simp [isMember, NodeKind.pairKinds]⟩

theorem PairOwner.not_value (tree : graph.TreeShaped) {owner : NodeId} {slot : Nat}
    {pair other : Node} (owned : graph.PairOwner owner slot pair) : ¬graph.ValueOf other pair.id := by
  intro value
  obtain ⟨parent, stored, link, notPair⟩ := owned.parent tree
  obtain ⟨otherPair, otherOwned, isPair, otherLink⟩ := value.parent tree
  have same := tree.stored_eq stored otherOwned.stored (isParent_rightUnique link otherLink)
  rw [same] at notPair
  exact notPair isPair

/-- Every known node has its path known, or is a value in a node that has. -/
def Anchored (graph : Graph) (scopes : Scopes) : Prop :=
  ∀ id ∈ scopes, graph.Rooted scopes id ∨
    ∃ owner, graph.ValueOf owner id ∧ graph.Rooted scopes owner.id

theorem Anchored.mono_at {id : NodeId} (anchored : graph.Anchored scopes) (known : id ∈ scopes)
    (kept : ∀ other ∈ scopes, other ∈ others) :
    graph.Rooted others id ∨ ∃ owner, graph.ValueOf owner id ∧ graph.Rooted others owner.id := by
  rcases anchored id known with rooted | ⟨owner, value, rooted⟩
  · exact Or.inl (rooted.mono kept)
  · exact Or.inr ⟨owner, value, rooted.mono kept⟩

theorem Anchored.union (anchored : graph.Anchored scopes) (otherAnchored : graph.Anchored others) :
    graph.Anchored (scopes ∪ others) := by
  intro id known
  rcases Std.ExtTreeMap.mem_union_iff.mp known with earlier | later
  · exact anchored.mono_at earlier fun other member => Std.ExtTreeMap.mem_union_iff.mpr (.inl member)
  · exact otherAnchored.mono_at later fun other member =>
      Std.ExtTreeMap.mem_union_iff.mpr (.inr member)

theorem TreeShaped.anchored (tree : graph.TreeShaped) : ScopeInvariant graph graph.Anchored := by
  refine @scopeInvariant graph tree _
    (fun delta node => ∀ high, Relation.TransGen graph.IsParent node.id high → high ∈ delta)
    (fun id known => by simp at known) Anchored.union ?_ ?_
  · intro node noParent high strictly
    obtain ⟨parent, link, _⟩ := Relation.TransGen.head'_iff.mp strictly
    simp [IsParent, noParent] at link
  · intro given node next? delta after _ _ widens anchored above
    have kept : ∀ id ∈ delta, id ∈ after := fun id known => widens.mem (Or.inr known)
    have rooted : graph.Rooted after node.id :=
      rooted_of_above (widens.mem (Or.inl rfl)) fun high strictly => kept high (above high strictly)
    refine ⟨fun id known => ?_, fun next childOf => rooted.above_child (childOf.isParent tree)⟩
    rcases widens.known known with ⟨bound, items, binds, rfl⟩ | rfl | before
    · rcases binds.place tree with link | value
      · exact Or.inl (rooted.child link known)
      · exact Or.inr ⟨node, value, rooted⟩
    · exact Or.inl rooted
    · exact anchored.mono_at before kept

theorem TreeShaped.storedScopes (tree : graph.TreeShaped) :
    ScopeInvariant graph fun scopes => ∀ id ∈ scopes, (graph.node? id).isSome := by
  refine @scopeInvariant graph tree _ (fun _ _ => True) (fun id known => by simp at known) ?_
    (fun _ _ => trivial) ?_
  · intro scopes others stored otherStored id known
    rcases Std.ExtTreeMap.mem_union_iff.mp known with earlier | later
    · exact stored id earlier
    · exact otherStored id later
  · intro given node next? delta after nodeStored _ widens stored _
    refine ⟨fun id known => ?_, fun _ _ => trivial⟩
    rcases widens.known known with ⟨bound, items, binds, rfl⟩ | rfl | before
    · simp [tree.stored_iff.mp binds.nodeStored]
    · simp [tree.stored_iff.mp nodeStored]
    · exact stored id before

/-- Where the parent of a known node is known, the whole path is: the parent of a value is a pair,
and a pair is not a value itself. -/
theorem Anchored.rooted_iff (tree : graph.TreeShaped) (anchored : graph.Anchored scopes)
    {id : NodeId} (known : id ∈ scopes) :
    graph.Rooted scopes id ↔ ∀ parent, graph.parentId? id = some parent → parent ∈ scopes := by
  constructor
  · intro rooted parent link
    exact rooted parent (.single link)
  · intro parentKnown
    rcases anchored id known with rooted | ⟨owner, value, _⟩
    · exact rooted
    · obtain ⟨pair, owned, _, link⟩ := value.parent tree
      rcases anchored pair.id (parentKnown pair.id link) with rooted | ⟨other, pairValue, _⟩
      · exact rooted.child link known
      · exact absurd pairValue (owned.not_value tree)

theorem TreeShaped.ancestry_rooted (tree : graph.TreeShaped) {id : NodeId}
    (stored : (graph.node? id).isSome) :
    ∃ path, graph.ancestry id = .ok path ∧
      ((∀ node ∈ path, node.id ∈ scopes) ↔ graph.Rooted scopes id) := by
  obtain ⟨node, found⟩ := Option.isSome_iff_exists.mp stored
  obtain ⟨above, path, _⟩ := tree.exists_rootPath stored
  refine ⟨node :: above, tree.ancestry_eq found path, ?_⟩
  constructor
  · intro known
    refine rooted_of_above ?_ fun high strictly => ?_
    · rw [← tree.ownId found]
      exact known node (by simp)
    · obtain ⟨other, member, rfl⟩ := (path.mem_iff tree).mpr strictly
      exact known other (List.mem_cons_of_mem _ member)
  · intro rooted other member
    rcases List.mem_cons.mp member with rfl | higher
    · rw [tree.ownId found]
      exact rooted id .refl
    · exact rooted other.id ((path.mem_iff tree).mp ⟨other, higher, rfl⟩).to_reflTransGen

end Graph

/-- A resolution that begins with gathered scopes leaves the whole path of the node known, and fit to
be filtered, unless the node was known before and its parent was not. -/
theorem resolveScope_path {graph : Graph} (tree : graph.TreeShaped) {given : Scopes}
    (gathered : Gathered graph given) {id : NodeId} {cancellation : Cancellation} {scopes : Scopes}
    (resolved : (resolveScope graph id (some given) cancellation).1 = .ok scopes) :
    ∃ path, graph.ancestry id = .ok path ∧
      ((∀ node ∈ path, node.id ∈ scopes) ↔
        (id ∈ given → ∀ parent, graph.parentId? id = some parent → parent ∈ given)) ∧
      ((∃ filtered, filterByPosition graph scopes path = .ok filtered) ↔
        (id ∈ given → ∀ parent, graph.parentId? id = some parent → parent ∈ given)) := by
  have facts := resolveScope_faithful tree (by simpa using gathered.keeps tree.faithful) resolved
  have stored := (gathered.resolved resolved).keeps tree.storedScopes id facts.known
  have rooted : graph.Rooted scopes id ↔
      (id ∈ given → ∀ parent, graph.parentId? id = some parent → parent ∈ given) := by
    rcases resolveScope_eq_ok resolved with ⟨known, same⟩ | ⟨unknown, final, inspected, rfl⟩
    · simp only [Option.getD_some] at known same
      subst same
      simpa [known] using (gathered.keeps tree.anchored).rooted_iff tree known
    · simp only [Option.getD_some] at unknown
      have absent : given[id]? = none := Std.ExtTreeMap.getElem?_eq_none unknown
      have reached := (Resolver.inspect_faithful tree
        (fun layer member => by
          obtain rfl := List.mem_singleton.mp member
          exact gathered.keeps tree.faithful) inspected).2 (by simp [Resolver.given?, absent])
      refine ⟨fun _ known => absurd known unknown, fun _ high below => ?_⟩
      exact Std.ExtTreeMap.mem_union_iff.mpr (Or.inr (reached high below))
  obtain ⟨path, climbed, onPath⟩ := @Graph.TreeShaped.ancestry_rooted graph scopes tree id stored
  exact ⟨path, climbed, onPath.trans rooted, filterByPosition_isOk_iff.trans (onPath.trans rooted)⟩

/-- The formula `[a = 1, b = 2]`. -/
def recordSample : Graph :=
  (show Build NodeId from do
    let one ← Builder.numericLiteral "1"
    let two ← Builder.numericLiteral "2"
    Builder.recordExpression [("a", one), ("b", two)]).run .empty |>.2.graph

def recordScopes : Scopes :=
  (resolveScope recordSample 1 (some ∅) .never).1.toOption.getD ∅

theorem recordScopes_gathered : Gathered recordSample recordScopes := by
  have succeeds : (resolveScope recordSample 1 (some ∅) .never).1.isOk := by decide +kernel
  refine @Gathered.resolved recordSample ∅ 1 .never recordScopes .empty ?_
  unfold recordScopes
  cases resolved : (resolveScope recordSample 1 (some ∅) .never).1 with
  | error failure => simp [resolved, Except.isOk, Except.toBool] at succeeds
  | ok scopes => rfl

theorem recordSample_path :
    ∃ scopes path, (resolveScope recordSample 1 (some recordScopes) .never).1 = .ok scopes ∧
      recordSample.ancestry 1 = .ok path ∧ (∀ node ∈ path, node.id ∈ scopes) ∧
      ∃ filtered, filterByPosition recordSample scopes path = .ok filtered := by
  have known : (1 : NodeId) ∈ recordScopes := by decide +kernel
  have pair : recordSample.parentId? 1 = some 5 ∧ (5 : NodeId) ∈ recordScopes := by decide +kernel
  have resolved : (resolveScope recordSample 1 (some recordScopes) .never).1 = .ok recordScopes := by
    simp [resolveScope, known]
  obtain ⟨path, climbed, onPath, filters⟩ :=
    resolveScope_path (by decide +kernel) recordScopes_gathered resolved
  have parentKnown : ∀ parent, recordSample.parentId? 1 = some parent → parent ∈ recordScopes := by
    intro parent link
    obtain rfl := Option.some.inj (pair.1.symm.trans link)
    exact pair.2
  exact ⟨recordScopes, path, resolved, climbed, onPath.mpr fun _ => parentKnown,
    filters.mpr fun _ => parentKnown⟩

/-- The value of `b` is known, but the pair that it stands in is not. -/
theorem recordSample_gap :
    recordSample.TreeShaped ∧ Gathered recordSample recordScopes ∧
      (resolveScope recordSample 2 (some recordScopes) .never).1 = .ok recordScopes ∧
      ∃ path, recordSample.ancestry 2 = .ok path ∧ (∃ node ∈ path, node.id ∉ recordScopes) ∧
        filterByPosition recordSample recordScopes path = .error (.missingScope 8) := by
  have known : (2 : NodeId) ∈ recordScopes := by decide +kernel
  have unknown : (8 : NodeId) ∉ recordScopes := by decide +kernel
  have climbs : (recordSample.ancestry 2).map (List.map Node.id) = .ok [2, 8, 11, 12, 15] := by
    decide +kernel
  refine ⟨by decide +kernel, recordScopes_gathered, by simp [resolveScope, known], ?_⟩
  cases climbed : recordSample.ancestry 2 with
  | error failure => simp [climbed, Except.map] at climbs
  | ok path =>
      simp only [climbed, Except.map, Except.ok.injEq] at climbs
      obtain ⟨value, above, rfl, valueId, aboveIds⟩ := List.map_eq_cons_iff.mp climbs
      obtain ⟨pair, higher, rfl, pairId, _⟩ := List.map_eq_cons_iff.mp aboveIds
      refine ⟨_, rfl, ⟨pair, by simp, by rw [pairId]; exact unknown⟩, ?_⟩
      have missing : recordScopes[(8 : NodeId)]? = none := Std.ExtTreeMap.getElem?_eq_none unknown
      rw [Std.ExtTreeMap.mem_iff_isSome_getElem?] at known
      obtain ⟨scope, found⟩ := Option.isSome_iff_exists.mp known
      simp [filterByPosition, valueId, pairId, found, missing, Std.ExtTreeMap.getElem?_insert]

end FormulaInspection
