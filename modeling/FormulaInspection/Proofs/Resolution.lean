import FormulaInspection.Proofs.LexicalScope
import FormulaInspection.Proofs.ShapeCheck
import Mathlib.Data.List.Chain

/-!
The walk from the root down to a node gives every node it touches its lexical scope. What one visit
does is said once: it makes sure that the node has a scope and writes the scopes of nodes that the
node binds names for. Writing such a scope twice is the same as writing it once, so it does not
matter which of them were known before.
-/

namespace FormulaInspection

namespace Graph

variable {graph : Graph}

def Faithful (graph : Graph) (scopes : Scopes) : Prop :=
  ∀ id scope, scopes[id]? = some scope → scope = graph.lexicalScope id

theorem faithful_empty : graph.Faithful ∅ := by
  intro id scope found
  simp at found

theorem Faithful.insert {scopes : Scopes} {id : NodeId} {scope : Scope}
    (faithful : graph.Faithful scopes) (lexical : scope = graph.lexicalScope id) :
    graph.Faithful (scopes.insert id scope) := by
  intro other found hit
  simp only [Std.ExtTreeMap.getElem?_insert, Std.compare_eq_iff_eq] at hit
  split at hit
  · rename_i same
    rw [← same, ← lexical, Option.some.inj hit]
  · exact faithful other found hit

theorem Faithful.union {scopes others : Scopes} (faithful : graph.Faithful scopes)
    (otherFaithful : graph.Faithful others) : graph.Faithful (scopes ∪ others) := by
  intro id scope found
  rw [Std.ExtTreeMap.getElem?_union] at found
  cases later : others[id]? with
  | some held =>
      rw [later] at found
      exact otherFaithful id scope (later.trans found)
  | none =>
      rw [later] at found
      exact faithful id scope found

theorem requiredChild?_eq_some {parent child : Node} {slot : Nat}
    {allowed : Option (List NodeKind)} :
    graph.requiredChild? parent slot allowed = .ok (some child) ↔
      graph.child? parent.id slot allowed = .ok (some child) := by
  cases parent with
  | context node => exact Iff.rfl
  | ast node =>
      unfold requiredChild? Graph.child
      cases read : graph.child? (Node.ast node).id slot allowed with
      | error failure => simp [bind, Except.bind, Except.map]
      | ok child? => cases child? <;> simp [bind, Except.bind, Except.map]

theorem Binds.inside (tree : graph.TreeShaped) {outer node : Node} {items : Scope}
    (binds : graph.Binds outer node items) :
    Relation.TransGen graph.IsParent node.id outer.id := by
  cases binds with
  | eachBody _ _ read => exact .single ((childSlot_some read).childOf.isParent tree)
  | functionBody _ _ read _ => exact .single ((childSlot_some read).childOf.isParent tree)
  | letBody _ _ inSlot _ => exact .single (inSlot.childOf.isParent tree)
  | pairValue stored listed member hasValue =>
      obtain ⟨reading, owned⟩ := ownedPairs_facts stored listed member
      obtain ⟨wrapper, place, below⟩ := owned.below tree
      exact .head' ((reading.value hasValue).childOf.isParent tree)
        (below.tail (place.childOf.isParent tree))

theorem Binds.body {outer bound : Node} {items : Scope}
    (binds : graph.Binds outer bound items) (noPairs : graph.ownedPairs outer = .ok [])
    (notLet : outer.kind ≠ .letExpression) :
    outer.kind = .eachExpression ∧ graph.child? outer.id Slot.eachBody = .ok (some bound) ∨
      outer.kind = .functionExpression ∧
        graph.child? outer.id Slot.functionBody = .ok (some bound) := by
  cases binds with
  | eachBody _ isEach read => exact Or.inl ⟨isEach, read⟩
  | functionBody _ isFunction read _ => exact Or.inr ⟨isFunction, read⟩
  | letBody _ isLet _ _ => exact absurd isLet notLet
  | pairValue _ listed member _ =>
      obtain rfl := Except.ok.inj (noPairs.symm.trans listed)
      simp at member

def Toward (graph : Graph) (node : Node) (next? : Option Node) (bound : Node) : Prop :=
  ∃ next, next? = some next ∧ graph.ChildOf node.id next ∧ graph.Below bound.id next.id

structure Descent (graph : Graph) (target : NodeId) (path : List Node) : Prop where
  chain : path.IsChain fun node next => graph.ChildOf node.id next
  stored : ∀ {node}, node ∈ path → graph.Stored node
  onWay : ∀ {node}, node ∈ path → graph.Below target node.id

theorem RootPath.isChain (tree : graph.TreeShaped) {id : NodeId} {node : Node} {above : List Node}
    (found : graph.node? id = some node) (path : graph.RootPath id above) :
    (node :: above).IsChain fun low high => graph.ChildOf high.id low := by
  induction path generalizing node with
  | root _ => exact .singleton node
  | step hasParent hit _ ih =>
      refine .cons_cons (tree.childOf_iff.mpr ⟨⟨_, found⟩, ?_⟩) (ih hit)
      rw [tree.ownId found, tree.ownId hit]
      exact hasParent

theorem RootPath.top (tree : graph.TreeShaped) {id : NodeId} {node : Node} {above : List Node}
    (found : graph.node? id = some node) (path : graph.RootPath id above) :
    ∃ first rest, (node :: above).reverse = first :: rest ∧ graph.parentId? first.id = none := by
  induction path generalizing node with
  | root noParent => exact ⟨node, [], rfl, by rw [tree.ownId found]; exact noParent⟩
  | step _ hit _ ih =>
      obtain ⟨first, rest, reversed, noParent⟩ := ih hit
      exact ⟨first, rest ++ [node], by rw [List.reverse_cons, reversed]; rfl, noParent⟩

theorem RootPath.descent (tree : graph.TreeShaped) {id : NodeId} {node : Node} {above : List Node}
    (found : graph.node? id = some node) (path : graph.RootPath id above) :
    graph.Descent id (node :: above).reverse where
  chain := List.isChain_reverse.mpr (path.isChain tree found)
  stored := by
    intro other member
    rcases List.mem_cons.mp (List.mem_reverse.mp member) with rfl | higher
    · exact ⟨id, found⟩
    · exact path.stored higher
  onWay := by
    intro other member
    rcases List.mem_cons.mp (List.mem_reverse.mp member) with rfl | higher
    · rw [tree.ownId found]
      exact .refl
    · exact ((path.mem_iff tree).mp ⟨other, higher, rfl⟩).to_reflTransGen

end Graph

theorem KeyValuePair.scopeItem_eq (pair : KeyValuePair) (owner : NodeKind) (isRecursive : Bool) :
    pair.scopeItem (owner == .section) isRecursive =
      owner.pairItem pair.key pair.keyNode.id (pair.value?.map Node.id) isRecursive := by
  cases owner <;> rfl

namespace Resolver

variable {resolver : Resolver}

def expandAll (resolver : Resolver) (scope : Scope) (targets : List (Node × Scope))
    (delta : Scopes) : Scopes :=
  targets.foldl (fun delta target => resolver.expand delta target.1.id target.2 scope) delta

def valueTargets (pairs : List KeyValuePair) (isSection : Bool) : List (Node × Scope) :=
  pairs.filterMap fun pair =>
    pair.value?.map fun value => (value, pair.siblingItems pairs isSection)

theorem expandValues_eq (scope : Scope) (pairs : List KeyValuePair) (isSection : Bool)
    (delta : Scopes) :
    resolver.expandValues scope pairs isSection delta =
      resolver.expandAll scope (valueTargets pairs isSection) delta := by
  unfold expandValues valueTargets expandAll
  rw [List.foldl_filterMap]
  congr
  funext delta pair
  cases pair.value? <;> rfl

theorem mem_valueTargets {pairs : List KeyValuePair} {isSection : Bool} {target : Node × Scope} :
    target ∈ valueTargets pairs isSection ↔ ∃ pair ∈ pairs, pair.value? = some target.1 ∧
      target.2 = pair.siblingItems pairs isSection := by
  simp only [valueTargets, List.mem_filterMap, Option.map_eq_some_iff]
  constructor
  · rintro ⟨pair, member, value, hasValue, rfl⟩
    exact ⟨pair, member, hasValue, rfl⟩
  · rintro ⟨pair, member, hasValue, items⟩
    exact ⟨pair, member, target.1, hasValue, by rw [← items]⟩

/-- What a visit may write besides the scope of the visited node: scopes of nodes that the node
binds names for, among them all that the way to `next?` leads to. -/
structure Extends (resolver : Resolver) (node : Node) (next? : Option Node)
    (targets : List (Node × Scope)) : Prop where
  binds : ∀ {target}, target ∈ targets → resolver.graph.Binds node target.1 target.2
  reached : ∀ {bound items}, resolver.graph.Binds node bound items →
    resolver.graph.Toward node next? bound → ∃ target ∈ targets, target.1 = bound

theorem extends_nothing {node : Node} {next? : Option Node}
    (free : ∀ bound items, ¬resolver.graph.Binds node bound items) :
    resolver.Extends node next? [] where
  binds := by simp
  reached := fun binds _ => absurd binds (free _ _)

theorem extends_body {node body : Node} {next? : Option Node} {items : Scope}
    (binds : resolver.graph.Binds node body items)
    (only : ∀ bound others, resolver.graph.Binds node bound others → bound = body) :
    resolver.Extends node next? [(body, items)] where
  binds := by
    intro target member
    obtain rfl := List.mem_singleton.mp member
    exact binds
  reached := fun other _ => ⟨(body, items), by simp, (only _ _ other).symm⟩

theorem valueTargets_binds {owner : Node} {pairs : List KeyValuePair} {target : Node × Scope}
    (stored : resolver.graph.Stored owner) (listed : resolver.graph.ownedPairs owner = .ok pairs)
    (member : target ∈ valueTargets pairs (owner.kind == .section)) :
    resolver.graph.Binds owner target.1 target.2 := by
  obtain ⟨pair, inPairs, hasValue, items⟩ := mem_valueTargets.mp member
  have binds := Graph.Binds.pairValue stored listed inPairs hasValue
  rw [items]
  simpa only [KeyValuePair.siblingItems, KeyValuePair.scopeItem_eq, hasValue, Option.map_some]
    using binds

theorem extends_values {owner : Node} {next? : Option Node} {pairs : List KeyValuePair}
    {isSection : Bool} (stored : resolver.graph.Stored owner)
    (listed : resolver.graph.ownedPairs owner = .ok pairs)
    (kind : isSection = (owner.kind == .section))
    (only : ∀ bound items, resolver.graph.Binds owner bound items →
      resolver.graph.Toward owner next? bound → ∃ pair ∈ pairs, pair.value? = some bound) :
    resolver.Extends owner next? (valueTargets pairs isSection) where
  binds := by
    intro target member
    subst kind
    exact valueTargets_binds stored listed member
  reached := by
    intro bound items binds toward
    obtain ⟨pair, inPairs, hasValue⟩ := only bound items binds toward
    exact ⟨(bound, pair.siblingItems pairs isSection),
      mem_valueTargets.mpr ⟨pair, inPairs, hasValue, rfl⟩, rfl⟩

def Widens (resolver : Resolver) (node : Node) (next? : Option Node) (delta after : Scopes) : Prop :=
  ∃ targets, resolver.Extends node next? targets ∧
    after = resolver.expandAll (resolver.currentScope delta node.id none) targets
      (resolver.touch delta node.id)

theorem widens_absent {node : Node} {next? : Option Node} {slot : Nat} {delta : Scopes}
    (only : ∀ bound items, resolver.graph.Binds node bound items →
      resolver.graph.child? node.id slot = .ok (some bound))
    (absent : resolver.graph.requiredChild? node slot = .ok none) :
    resolver.Widens node next? delta (resolver.touch delta node.id) := by
  refine ⟨[], extends_nothing fun bound items binds => ?_, rfl⟩
  rw [Graph.requiredChild?_eq_some.mpr (only bound items binds)] at absent
  simp at absent

theorem widens_body {node body : Node} {next? : Option Node} {slot : Nat} {items : Scope}
    {delta : Scopes}
    (only : ∀ bound items, resolver.graph.Binds node bound items →
      resolver.graph.child? node.id slot = .ok (some bound))
    (binds : resolver.graph.Binds node body items) :
    resolver.Widens node next? delta
      (resolver.expand (resolver.touch delta node.id) body.id items
        (resolver.currentScope delta node.id none)) := by
  refine ⟨[(body, items)], extends_body binds fun bound others otherBinds => ?_, rfl⟩
  have same := (only bound others otherBinds).symm.trans (only body items binds)
  exact Option.some.inj (Except.ok.inj same)

theorem visitEach_widens {each : Node} {next? : Option Node} {delta after : Scopes}
    (stored : resolver.graph.Stored each) (kind : each.kind = .eachExpression)
    (visited : resolver.visitEach each delta = ⟨after, none⟩) :
    resolver.Widens each next? delta after := by
  have only : ∀ bound items, resolver.graph.Binds each bound items →
      resolver.graph.child? each.id Slot.eachBody = .ok (some bound) := by
    intro bound items binds
    have place := binds.body (by simp [Graph.ownedPairs, kind]) (by simp [kind])
    simpa [kind] using place
  unfold visitEach at visited
  split at visited
  · simp at visited
  · rename_i absent
    simp only [Visit.mk.injEq, and_true] at visited
    subst visited
    exact widens_absent only absent
  · rename_i body present
    simp only [Visit.mk.injEq, and_true] at visited
    subst visited
    exact widens_body only (.eachBody stored kind (Graph.requiredChild?_eq_some.mp present))

theorem visitFunction_widens {function : Node} {next? : Option Node} {delta after : Scopes}
    (stored : resolver.graph.Stored function) (kind : function.kind = .functionExpression)
    (visited : resolver.visitFunction function delta = ⟨after, none⟩) :
    resolver.Widens function next? delta after := by
  have only : ∀ bound items, resolver.graph.Binds function bound items →
      resolver.graph.child? function.id Slot.functionBody = .ok (some bound) := by
    intro bound items binds
    have place := binds.body (by simp [Graph.ownedPairs, kind]) (by simp [kind])
    simpa [kind] using place
  unfold visitFunction at visited
  split at visited
  · simp at visited
  · rename_i absent
    simp only [Visit.mk.injEq, and_true] at visited
    subst visited
    exact widens_absent only absent
  · rename_i body present
    split at visited
    · simp at visited
    · rename_i signature analysed
      simp only [Visit.mk.injEq, and_true] at visited
      subst visited
      have read := Graph.requiredChild?_eq_some.mp present
      exact widens_body only (.functionBody stored kind read analysed)

theorem visitPairs_widens {owner : Node} {next? : Option Node} {pairs : List KeyValuePair}
    {isSection : Bool} {delta : Scopes} (stored : resolver.graph.Stored owner)
    (listed : resolver.graph.ownedPairs owner = .ok pairs)
    (kind : isSection = (owner.kind == .section))
    (only : ∀ bound items, resolver.graph.Binds owner bound items →
      resolver.graph.Toward owner next? bound → ∃ pair ∈ pairs, pair.value? = some bound) :
    resolver.Widens owner next? delta (resolver.visitPairs owner pairs isSection delta) :=
  ⟨valueTargets pairs isSection, extends_values stored listed kind only, by
    rw [visitPairs, expandValues_eq]⟩

theorem visitLet_widens (tree : resolver.graph.TreeShaped) {letNode : Node} {next? : Option Node}
    {pairs : List KeyValuePair} {delta : Scopes} (stored : resolver.graph.Stored letNode)
    (kind : letNode.kind = .letExpression) (listed : resolver.graph.letPairs letNode = .ok pairs)
    (onward : ∀ next, next? = some next → resolver.graph.ChildOf letNode.id next) :
    resolver.Widens letNode next? delta (resolver.visitLet letNode next? pairs delta) := by
  have owned : resolver.graph.ownedPairs letNode = .ok pairs := by
    rw [Graph.ownedPairs, kind]
    exact listed
  have same_child : ∀ {bound child next : Node}, resolver.graph.ChildOf letNode.id child →
      resolver.graph.Below bound.id child.id → resolver.graph.ChildOf letNode.id next →
      resolver.graph.Below bound.id next.id → child = next := by
    intro bound child next childOf underChild nextOf underNext
    exact tree.stored_eq childOf.stored nextOf.stored
      (tree.sibling_unique underChild underNext (childOf.isParent tree) (nextOf.isParent tree))
  have value_place : ∀ {pair : KeyValuePair} {value next : Node}, pair ∈ pairs →
      pair.value? = some value → resolver.graph.ChildOf letNode.id next →
      resolver.graph.Below value.id next.id → next.slot = some Slot.letBindings := by
    intro pair value next member hasValue nextOf underNext
    obtain ⟨reading, owner⟩ := Graph.ownedPairs_facts stored owned member
    obtain ⟨wrapper, place, below⟩ := owner.below tree
    rw [← same_child place.childOf (.head ((reading.value hasValue).childOf.isParent tree) below)
      nextOf underNext, place.slot, kind]
    rfl
  unfold visitLet
  cases toBody : next?.filter fun next => next.slot == some Slot.letBody with
  | some body =>
      obtain ⟨rfl, inBody⟩ := Option.filter_eq_some_iff.mp toBody
      have slot : body.slot = some Slot.letBody := by simpa using inBody
      have nextOf := onward body rfl
      refine ⟨[(body, _)], ⟨?_, ?_⟩, rfl⟩
      · intro target member
        obtain rfl := List.mem_singleton.mp member
        exact .letBody stored kind ⟨nextOf, slot⟩ listed
      · rintro bound items binds ⟨next, sameNext, _, under⟩
        obtain rfl := Option.some.inj sameNext
        refine ⟨_, List.mem_singleton_self _, ?_⟩
        cases binds with
        | eachBody _ isEach _ => simp [kind] at isEach
        | functionBody _ isFunction _ _ => simp [kind] at isFunction
        | letBody _ _ inSlot _ => exact (same_child inSlot.childOf .refl nextOf under).symm
        | pairValue _ others member hasValue =>
            obtain rfl := Except.ok.inj (owned.symm.trans others)
            simp [value_place member hasValue nextOf under, Slot.letBody, Slot.letBindings] at slot
  | none =>
      refine visitPairs_widens stored owned (by rw [kind]; rfl) ?_
      rintro bound items binds ⟨next, rfl, nextOf, under⟩
      cases binds with
      | eachBody _ isEach _ => simp [kind] at isEach
      | functionBody _ isFunction _ _ => simp [kind] at isFunction
      | letBody _ _ inSlot _ =>
          obtain rfl := same_child inSlot.childOf .refl nextOf under
          simp [inSlot.slot] at toBody
      | pairValue _ others member hasValue =>
          obtain rfl := Except.ok.inj (owned.symm.trans others)
          exact ⟨_, member, hasValue⟩

theorem visit_owner {owner : Node} {next? : Option Node} {delta after : Scopes}
    (kind : owner.kind = .recordExpression ∨ owner.kind = .recordLiteral ∨ owner.kind = .section)
    (visited : resolver.visit owner next? delta = ⟨after, none⟩) :
    ∃ pairs, resolver.graph.ownedPairs owner = .ok pairs ∧
      after = resolver.visitPairs owner pairs (owner.kind == .section) delta := by
  rcases kind with kind | kind | kind
  all_goals
    simp only [visit, kind] at visited
    split at visited
    · simp at visited
    · rename_i pairs listed
      simp only [Visit.mk.injEq, and_true] at visited
      refine ⟨pairs, ?_, ?_⟩
      · rw [Graph.ownedPairs, kind]
        exact listed
      · rw [kind]
        exact visited.symm

theorem visit_widens (tree : resolver.graph.TreeShaped) {node : Node} {next? : Option Node}
    {delta after : Scopes} (stored : resolver.graph.Stored node)
    (onward : ∀ next, next? = some next → resolver.graph.ChildOf node.id next)
    (visited : resolver.visit node next? delta = ⟨after, none⟩) :
    resolver.Widens node next? delta after := by
  have values_only : ∀ {pairs : List KeyValuePair}, resolver.graph.ownedPairs node = .ok pairs →
      node.kind ≠ .eachExpression → node.kind ≠ .functionExpression →
      node.kind ≠ .letExpression → ∀ bound items, resolver.graph.Binds node bound items →
      ∃ pair ∈ pairs, pair.value? = some bound := by
    intro pairs listed notEach notFunction notLet bound items binds
    cases binds with
    | eachBody _ isEach _ => exact absurd isEach notEach
    | functionBody _ isFunction _ _ => exact absurd isFunction notFunction
    | letBody _ isLet _ _ => exact absurd isLet notLet
    | pairValue _ others member hasValue =>
        obtain rfl := Except.ok.inj (listed.symm.trans others)
        exact ⟨_, member, hasValue⟩
  by_cases isOwner :
      node.kind = .recordExpression ∨ node.kind = .recordLiteral ∨ node.kind = .section
  · obtain ⟨pairs, listed, rfl⟩ := visit_owner isOwner visited
    refine visitPairs_widens stored listed rfl fun bound items binds _ => ?_
    refine values_only listed ?_ ?_ ?_ bound items binds
    all_goals
      intro kind
      simp [kind] at isOwner
  · unfold visit at visited
    split at visited
    · rename_i kind
      exact visitEach_widens stored kind visited
    · rename_i kind
      exact visitFunction_widens stored kind visited
    · rename_i kind
      split at visited
      · simp at visited
      · rename_i pairs listed
        simp only [Visit.mk.injEq, and_true] at visited
        subst visited
        exact visitLet_widens tree stored kind listed onward
    · exact absurd (Or.inl ‹_›) isOwner
    · exact absurd (Or.inr (Or.inl ‹_›)) isOwner
    · exact absurd (Or.inr (Or.inr ‹_›)) isOwner
    · rename_i notEach notFunction notLet notRecord notLiteral notSection
      simp only [Visit.mk.injEq, and_true] at visited
      have none_listed := resolver.graph.ownedPairs_other notLet notRecord notLiteral notSection
      refine ⟨[], extends_nothing fun bound items binds => ?_, visited.symm⟩
      obtain ⟨pair, member, _⟩ :=
        values_only none_listed notEach notFunction notLet bound items binds
      simp at member

def Trusted (resolver : Resolver) : Prop :=
  ∀ layer ∈ resolver.given, resolver.graph.Faithful layer

theorem Trusted.given? (trusted : resolver.Trusted) {id : NodeId} {scope : Scope}
    (found : resolver.given? id = some scope) : scope = resolver.graph.lexicalScope id := by
  obtain ⟨layer, member, hit⟩ := List.exists_of_findSome?_eq_some found
  exact trusted layer member id scope hit

/-- The scope of a node whose scope is not known yet but can be read off: it has no parent, or its
parent is known and nothing binds names for it. -/
structure Inherits (resolver : Resolver) (delta : Scopes) (id : NodeId) : Prop where
  parent : ∀ {parent}, resolver.graph.parentId? id = some parent → parent ∈ delta
  bound : ∀ {outer node items}, resolver.graph.Binds outer node items → node.id = id → id ∈ delta

theorem currentScope_known (trusted : resolver.Trusted) {delta : Scopes} {id : NodeId}
    {default? : Option Scope} (faithful : resolver.graph.Faithful delta)
    (known : id ∈ delta ∨ (resolver.given? id).isSome) :
    resolver.currentScope delta id default? = resolver.graph.lexicalScope id := by
  unfold currentScope
  cases held : delta[id]? with
  | some scope => exact faithful id scope held
  | none =>
      have given : (resolver.given? id).isSome := by
        refine known.resolve_left fun inDelta => ?_
        rw [Std.ExtTreeMap.mem_iff_isSome_getElem?, held] at inDelta
        simp at inDelta
      obtain ⟨scope, hit⟩ := Option.isSome_iff_exists.mp given
      simp only [Option.getD_none, initialScope, hit]
      exact trusted.given? hit

theorem currentScope_inherited (tree : resolver.graph.TreeShaped) (trusted : resolver.Trusted)
    {delta : Scopes} {id : NodeId} (faithful : resolver.graph.Faithful delta)
    (inherits : resolver.Inherits delta id) :
    resolver.currentScope delta id none = resolver.graph.lexicalScope id := by
  by_cases known : id ∈ delta ∨ (resolver.given? id).isSome
  · exact currentScope_known trusted faithful known
  · have absent : delta[id]? = none :=
      Std.ExtTreeMap.getElem?_eq_none fun inDelta => known (Or.inl inDelta)
    have notGiven : resolver.given? id = none := by
      rw [← Option.not_isSome_iff_eq_none]
      exact fun isGiven => known (Or.inr isGiven)
    simp only [currentScope, absent, Option.getD_none, initialScope, notGiven]
    cases hasParent : resolver.graph.parentId? id with
    | none => exact (tree.lexicalScope_lexical.root hasParent).symm
    | some parent =>
        have inDelta := inherits.parent hasParent
        rw [Std.ExtTreeMap.mem_iff_isSome_getElem?] at inDelta
        obtain ⟨scope, held⟩ := Option.isSome_iff_exists.mp inDelta
        simp only [held, Option.some_or, Option.getD_some]
        rw [faithful parent scope held, tree.lexicalScope_lexical.inherited hasParent]
        exact fun outer node items binds same => known (Or.inl (inherits.bound binds same))

theorem mem_expand {delta : Scopes} {id other : NodeId} {items scope : Scope} :
    other ∈ resolver.expand delta id items scope ↔ id = other ∨ other ∈ delta := by
  simp [expand, Std.ExtTreeMap.mem_insert]

theorem mem_touch {delta : Scopes} {id other : NodeId} :
    other ∈ resolver.touch delta id ↔ id = other ∨ other ∈ delta := by
  simp [touch, Std.ExtTreeMap.mem_insert]

theorem mem_expandAll {delta : Scopes} {scope : Scope} {targets : List (Node × Scope)}
    {id : NodeId} :
    id ∈ resolver.expandAll scope targets delta ↔
      (∃ target ∈ targets, target.1.id = id) ∨ id ∈ delta := by
  induction targets generalizing delta with
  | nil => simp [expandAll]
  | cons target rest ih =>
      change id ∈ resolver.expandAll scope rest (resolver.expand delta target.1.id target.2 scope) ↔ _
      rw [ih, mem_expand]
      simp only [List.mem_cons, exists_eq_or_imp]
      rw [or_left_comm, or_assoc]

theorem mem_visitPairs {owner : Node} {pairs : List KeyValuePair} {isSection : Bool}
    {delta : Scopes} {id : NodeId} (known : owner.id = id ∨ id ∈ delta) :
    id ∈ resolver.visitPairs owner pairs isSection delta := by
  rw [visitPairs, expandValues_eq]
  exact mem_expandAll.mpr (Or.inr (mem_touch.mpr known))

/-- A visit that comes to its end gives the node a scope, and what has one keeps it. This takes no
link of the graph for granted, so it holds in every graph. -/
theorem mem_visit {node : Node} {next? : Option Node} {delta after : Scopes} {id : NodeId}
    (visited : resolver.visit node next? delta = ⟨after, none⟩)
    (known : node.id = id ∨ id ∈ delta) : id ∈ after := by
  have touched : id ∈ resolver.touch delta node.id := mem_touch.mpr known
  by_cases isOwner :
      node.kind = .recordExpression ∨ node.kind = .recordLiteral ∨ node.kind = .section
  · obtain ⟨pairs, -, rfl⟩ := visit_owner isOwner visited
    exact mem_visitPairs known
  · unfold visit at visited
    split at visited
    · unfold visitEach at visited
      split at visited
      all_goals simp only [Visit.mk.injEq, and_true, reduceCtorEq, and_false] at visited
      · exact visited ▸ touched
      · exact visited ▸ mem_expand.mpr (Or.inr touched)
    · unfold visitFunction at visited
      split at visited
      · simp at visited
      · simp only [Visit.mk.injEq, and_true] at visited
        exact visited ▸ touched
      · split at visited
        all_goals simp only [Visit.mk.injEq, and_true, reduceCtorEq, and_false] at visited
        exact visited ▸ mem_expand.mpr (Or.inr touched)
    · split at visited
      all_goals simp only [Visit.mk.injEq, and_true, reduceCtorEq, and_false] at visited
      rw [← visited, visitLet]
      split
      · exact mem_expand.mpr (Or.inr touched)
      · exact mem_visitPairs known
    · exact absurd (Or.inl ‹_›) isOwner
    · exact absurd (Or.inr (Or.inl ‹_›)) isOwner
    · exact absurd (Or.inr (Or.inr ‹_›)) isOwner
    · simp only [Visit.mk.injEq, and_true] at visited
      exact visited ▸ touched

theorem expand_faithful (tree : resolver.graph.TreeShaped) (trusted : resolver.Trusted)
    {delta : Scopes} {outer node : Node} {items : Scope} (faithful : resolver.graph.Faithful delta)
    (binds : resolver.graph.Binds outer node items) :
    resolver.graph.Faithful
      (resolver.expand delta node.id items (resolver.graph.lexicalScope outer.id)) := by
  have bound := tree.lexicalScope_lexical.bound binds
  refine faithful.insert ?_
  by_cases known : node.id ∈ delta ∨ (resolver.given? node.id).isSome
  · -- The names are written a second time, over themselves.
    rw [currentScope_known trusted faithful known, bound, NameMap.setAll_setAll]
  · have absent : delta[node.id]? = none :=
      Std.ExtTreeMap.getElem?_eq_none fun inDelta => known (Or.inl inDelta)
    have notGiven : resolver.given? node.id = none := by
      rw [← Option.not_isSome_iff_eq_none]
      exact fun isGiven => known (Or.inr isGiven)
    simp [currentScope, absent, initialScope, notGiven, bound]

theorem expandAll_faithful (tree : resolver.graph.TreeShaped) (trusted : resolver.Trusted)
    {delta : Scopes} {outer : Node} {targets : List (Node × Scope)}
    (faithful : resolver.graph.Faithful delta)
    (binds : ∀ {target}, target ∈ targets → resolver.graph.Binds outer target.1 target.2) :
    resolver.graph.Faithful
      (resolver.expandAll (resolver.graph.lexicalScope outer.id) targets delta) := by
  induction targets generalizing delta with
  | nil => exact faithful
  | cons target rest ih =>
      exact ih (expand_faithful tree trusted faithful (binds (by simp)))
        fun member => binds (List.mem_cons_of_mem _ member)

theorem Widens.faithful (tree : resolver.graph.TreeShaped) (trusted : resolver.Trusted)
    {node : Node} {next? : Option Node} {delta after : Scopes}
    (widens : resolver.Widens node next? delta after) (faithful : resolver.graph.Faithful delta)
    (inherits : resolver.Inherits delta node.id) : resolver.graph.Faithful after := by
  obtain ⟨targets, extended, rfl⟩ := widens
  have scope := currentScope_inherited tree trusted faithful inherits
  rw [scope]
  exact expandAll_faithful tree trusted (faithful.insert scope) extended.binds

theorem Widens.mem {node : Node} {next? : Option Node} {delta after : Scopes}
    (widens : resolver.Widens node next? delta after) {id : NodeId}
    (known : node.id = id ∨ id ∈ delta) : id ∈ after := by
  obtain ⟨targets, _, rfl⟩ := widens
  exact mem_expandAll.mpr (Or.inr (mem_touch.mpr known))

theorem Widens.known {node : Node} {next? : Option Node} {delta after : Scopes}
    (widens : resolver.Widens node next? delta after) {id : NodeId} (known : id ∈ after) :
    (∃ bound items, resolver.graph.Binds node bound items ∧ bound.id = id) ∨ node.id = id ∨
      id ∈ delta := by
  obtain ⟨targets, extended, rfl⟩ := widens
  rcases mem_expandAll.mp known with ⟨target, member, same⟩ | touched
  · exact Or.inl ⟨target.1, target.2, extended.binds member, same⟩
  · exact Or.inr (mem_touch.mp touched)

theorem Widens.reached {node bound : Node} {next? : Option Node} {delta after : Scopes}
    {items : Scope} (widens : resolver.Widens node next? delta after)
    (binds : resolver.graph.Binds node bound items)
    (toward : resolver.graph.Toward node next? bound) : bound.id ∈ after := by
  obtain ⟨targets, extended, rfl⟩ := widens
  obtain ⟨target, member, rfl⟩ := extended.reached binds toward
  exact mem_expandAll.mpr (Or.inl ⟨target, member, rfl⟩)

/-- A node can be visited on the way to `target`: its parent is known, and so is every node on the
way for which a node already visited binds names. -/
structure Ready (resolver : Resolver) (target : NodeId) (delta : Scopes) (node : Node) : Prop where
  parent : ∀ {parent}, resolver.graph.parentId? node.id = some parent → parent ∈ delta
  bound : ∀ {outer other items}, resolver.graph.Binds outer other items →
    Relation.TransGen resolver.graph.IsParent node.id outer.id →
    resolver.graph.Below target other.id → other.id ∈ delta

theorem Ready.inherits (tree : resolver.graph.TreeShaped) {target : NodeId} {delta : Scopes}
    {node : Node} (ready : resolver.Ready target delta node)
    (onWay : resolver.graph.Below target node.id) : resolver.Inherits delta node.id where
  parent := ready.parent
  bound := by
    intro outer other items binds same
    rw [← same] at onWay ⊢
    refine ready.bound binds ?_ onWay
    rw [← same]
    exact binds.inside tree

theorem Ready.step (tree : resolver.graph.TreeShaped) {target : NodeId} {delta after : Scopes}
    {node next : Node} {next? : Option Node} (ready : resolver.Ready target delta node)
    (stored : resolver.graph.Stored node) (widens : resolver.Widens node next? delta after)
    (isNext : next? = some next) (childOf : resolver.graph.ChildOf node.id next)
    (nextOnWay : resolver.graph.Below target next.id) : resolver.Ready target after next where
  parent := by
    intro parent hasParent
    exact widens.mem (Or.inl (Option.some.inj ((childOf.isParent tree).symm.trans hasParent)))
  bound := by
    intro outer other items binds above underOther
    obtain ⟨parent, link, higher⟩ := Relation.TransGen.head'_iff.mp above
    obtain rfl := Graph.isParent_rightUnique (childOf.isParent tree) link
    rcases Relation.reflTransGen_iff_eq_or_transGen.mp higher with same | strictly
    · -- The visited node itself binds the names.
      obtain rfl := tree.stored_eq binds.outerStored stored same
      exact widens.reached binds ⟨next, isNext, childOf,
        tree.below_child underOther nextOnWay (childOf.isParent tree) (binds.inside tree)⟩
    · exact widens.mem (Or.inr (ready.bound binds strictly underOther))

theorem mem_walk {path : List Node} {state final : Resolution} {id : NodeId}
    (walked : resolver.walk path state = (.ok (), final))
    (known : (∃ node ∈ path, node.id = id) ∨ id ∈ state.delta) : id ∈ final.delta := by
  induction path generalizing state with
  | nil =>
      simp only [walk, Prod.mk.injEq, true_and] at walked
      rw [← walked]
      simpa using known
  | cons node rest ih =>
      unfold walk at walked
      split at walked
      · simp at walked
      · split at walked
        · rename_i visited
          refine ih walked ?_
          rcases known with ⟨other, member, rfl⟩ | earlier
          · rcases List.mem_cons.mp member with rfl | later
            · exact Or.inr (mem_visit visited (Or.inl rfl))
            · exact Or.inl ⟨other, later, rfl⟩
          · exact Or.inr (mem_visit visited (Or.inr earlier))
        · simp at walked

theorem walk_faithful (tree : resolver.graph.TreeShaped) (trusted : resolver.Trusted)
    {target : NodeId} {path : List Node} {state final : Resolution}
    (descent : resolver.graph.Descent target path)
    (faithful : resolver.graph.Faithful state.delta)
    (ready : ∀ first ∈ path.head?, resolver.Ready target state.delta first)
    (walked : resolver.walk path state = (.ok (), final)) :
    resolver.graph.Faithful final.delta := by
  induction path generalizing state with
  | nil =>
      simp only [walk, Prod.mk.injEq, true_and] at walked
      subst walked
      exact faithful
  | cons node rest ih =>
      obtain ⟨onward, restChain⟩ := List.isChain_cons.mp descent.chain
      have nodeReady := ready node (by simp)
      have nodeStored : resolver.graph.Stored node := descent.stored (by simp)
      have restDescent : resolver.graph.Descent target rest :=
        { chain := restChain
          stored := fun member => descent.stored (List.mem_cons_of_mem _ member)
          onWay := fun member => descent.onWay (List.mem_cons_of_mem _ member) }
      unfold walk at walked
      split at walked
      · simp at walked
      · split at walked
        · rename_i after visited
          have widens := visit_widens tree nodeStored (fun next isNext => onward next isNext) visited
          have afterFaithful := widens.faithful tree trusted faithful
            (nodeReady.inherits tree (descent.onWay (by simp)))
          exact ih restDescent afterFaithful
            (fun next isNext => nodeReady.step tree nodeStored widens isNext (onward next isNext)
              (restDescent.onWay (List.mem_of_mem_head? isNext)))
            walked
        · simp at walked

theorem ready_root {target : NodeId} {node : Node}
    (noParent : resolver.graph.parentId? node.id = none) : resolver.Ready target ∅ node where
  parent := by simp [noParent]
  bound := by
    intro outer other items _ above _
    obtain ⟨parent, link, _⟩ := Relation.TransGen.head'_iff.mp above
    simp [Graph.IsParent, noParent] at link

theorem inspect_walked {root : NodeId} {cancellation : Cancellation} {final : Resolution}
    (inspected : resolver.inspect root ⟨∅, cancellation⟩ = (.ok (), final)) :
    (resolver.given? root ≠ none ∧ final.delta = ∅) ∨
      ∃ path polled, resolver.graph.ancestry root = .ok path ∧
        resolver.walk path.reverse ⟨∅, polled⟩ = (.ok (), final) := by
  unfold inspect at inspected
  split at inspected
  · simp at inspected
  · rename_i polled _
    simp only [Std.ExtTreeMap.contains_empty, Bool.false_or] at inspected
    split at inspected
    · rename_i given
      simp only [Prod.mk.injEq, true_and] at inspected
      subst inspected
      exact Or.inl ⟨fun notGiven => by simp [notGiven] at given, rfl⟩
    · split at inspected
      · simp at inspected
      · rename_i path climbed
        exact Or.inr ⟨path, polled, climbed, inspected⟩

theorem inspect_reaches {root : NodeId} {cancellation : Cancellation} {final : Resolution}
    (inspected : resolver.inspect root ⟨∅, cancellation⟩ = (.ok (), final))
    (notGiven : resolver.given? root = none) :
    ∃ path, resolver.graph.ancestry root = .ok path ∧ ∀ node ∈ path, node.id ∈ final.delta := by
  rcases inspect_walked inspected with ⟨given, -⟩ | ⟨path, polled, climbed, walked⟩
  · exact absurd notGiven given
  · refine ⟨path, climbed, fun node member => ?_⟩
    exact mem_walk walked (Or.inl ⟨node, List.mem_reverse.mpr member, rfl⟩)

theorem inspect_eq_ok (tree : resolver.graph.TreeShaped) {root : NodeId}
    {cancellation : Cancellation} {final : Resolution}
    (inspected : resolver.inspect root ⟨∅, cancellation⟩ = (.ok (), final)) :
    (resolver.given? root ≠ none ∧ final.delta = ∅) ∨
      ∃ node above first rest polled, resolver.graph.node? root = some node ∧
        resolver.graph.RootPath root above ∧ (node :: above).reverse = first :: rest ∧
        resolver.graph.parentId? first.id = none ∧
        resolver.walk (first :: rest) ⟨∅, polled⟩ = (.ok (), final) := by
  rcases inspect_walked inspected with known | ⟨path, polled, climbed, walked⟩
  · exact Or.inl known
  · obtain ⟨node, above, rfl, found, rootPath⟩ := Graph.ancestry_eq_ok climbed
    obtain ⟨first, rest, reversed, noParent⟩ := rootPath.top tree found
    rw [reversed] at walked
    exact Or.inr ⟨node, above, first, rest, polled, found, rootPath, reversed, noParent, walked⟩

theorem inspect_faithful (tree : resolver.graph.TreeShaped) (trusted : resolver.Trusted)
    {root : NodeId} {cancellation : Cancellation} {final : Resolution}
    (inspected : resolver.inspect root ⟨∅, cancellation⟩ = (.ok (), final)) :
    resolver.graph.Faithful final.delta ∧
      (resolver.given? root = none → ∀ id, resolver.graph.Below root id → id ∈ final.delta) := by
  rcases inspect_eq_ok tree inspected with
    ⟨given, nothing⟩ | ⟨node, above, first, rest, polled, found, rootPath, reversed, noParent, walked⟩
  · rw [nothing]
    exact ⟨Graph.faithful_empty, fun notGiven => absurd notGiven given⟩
  · have descent := rootPath.descent tree found
    rw [reversed] at descent
    have faithful := walk_faithful tree trusted descent Graph.faithful_empty
      (fun top isTop => by obtain rfl := Option.some.inj isTop; exact ready_root noParent) walked
    refine ⟨faithful, fun _ id below => ?_⟩
    have inPath : ∃ other ∈ node :: above, other.id = id := by
      rcases Relation.reflTransGen_iff_eq_or_transGen.mp below with same | strictly
      · exact ⟨node, by simp, (tree.ownId found).trans same.symm⟩
      · obtain ⟨other, member, same⟩ := (rootPath.mem_iff tree).mpr strictly
        exact ⟨other, List.mem_cons_of_mem _ member, same⟩
    obtain ⟨other, member, same⟩ := inPath
    exact mem_walk walked (Or.inl ⟨other, by rw [← reversed]; exact List.mem_reverse.mpr member, same⟩)

end Resolver

theorem resolveScope_eq_ok {graph : Graph} {root : NodeId} {given? : Option Scopes}
    {cancellation : Cancellation} {scopes : Scopes}
    (resolved : (resolveScope graph root given? cancellation).1 = .ok scopes) :
    (root ∈ given?.getD ∅ ∧ scopes = given?.getD ∅) ∨
      (root ∉ given?.getD ∅ ∧ ∃ final,
        Resolver.inspect ⟨graph, given?.toList⟩ root ⟨∅, cancellation⟩ = (.ok (), final) ∧
        scopes = given?.getD ∅ ∪ final.delta) := by
  unfold resolveScope at resolved
  simp only at resolved
  split at resolved
  · rename_i contained
    exact Or.inl ⟨Std.ExtTreeMap.contains_iff_mem.mp contained, (Except.ok.inj resolved).symm⟩
  · rename_i missing
    refine Or.inr ⟨fun member => missing (Std.ExtTreeMap.contains_iff_mem.mpr member), ?_⟩
    split at resolved
    · rename_i final inspected
      exact ⟨final, inspected, (Except.ok.inj resolved).symm⟩
    · cases resolved

/-- Resolving a node from nothing gives the node, every node above it, and whatever else was touched
on the way, their lexical scopes. -/
theorem resolveScope_lexical {graph : Graph} (tree : graph.TreeShaped) {root : NodeId}
    {cancellation : Cancellation} {scopes : Scopes}
    (resolved : (resolveScope graph root none cancellation).1 = .ok scopes) :
    graph.LexicalScopes graph.lexicalScope ∧ (∀ id, graph.Below root id → id ∈ scopes) ∧
      ∀ id scope, scopes[id]? = some scope → scope = graph.lexicalScope id := by
  refine ⟨tree.lexicalScope_lexical, ?_⟩
  rcases resolveScope_eq_ok resolved with ⟨known, _⟩ | ⟨_, final, inspected, rfl⟩
  · simp at known
  · obtain ⟨faithful, reached⟩ := Resolver.inspect_faithful tree
      (fun layer member => by simp at member) inspected
    refine ⟨fun id below => ?_, Graph.faithful_empty.union faithful⟩
    exact Std.ExtTreeMap.mem_union_iff.mpr (Or.inr (reached rfl id below))

/-- The document `section; shared f = (optional p as nullable number) => let x = p, y = each
[a = x, b = 1, a = _] in y; shared g = 2;`. -/
def sectionSample : Graph :=
  (show Build NodeId from do
    let one ← Builder.numericLiteral "1"
    let useX ← Builder.identifierExpression "x"
    let item ← Builder.identifierExpression "_"
    let record ← Builder.recordExpression [("a", useX), ("b", one), ("a", item)]
    let each ← Builder.eachExpression record
    let useP ← Builder.identifierExpression "p"
    let body ← Builder.identifierExpression "y"
    let letNode ← Builder.letExpression [("x", useP), ("y", each)] body
    let p ← Builder.parameter "p" true (some (.number, true))
    let function ← Builder.functionExpression [p] none letNode
    let two ← Builder.numericLiteral "2"
    Builder.sectionOf [("f", function), ("g", two)]).run .empty |>.2.graph

/-- Resolving the second value of `a` gives it a scope, and the value of `x`, which is not on the way
to it, another. -/
theorem sectionSample_lexical :
    ∃ scopes, (resolveScope sectionSample 5 none .never).1 = .ok scopes ∧
      (sectionSample.LexicalScopes sectionSample.lexicalScope ∧
        (∀ id, sectionSample.Below 5 id → id ∈ scopes) ∧
        ∀ id scope, scopes[id]? = some scope → scope = sectionSample.lexicalScope id) ∧
      scopes[5]? = some
        [("@f", .sectionMember "f" 60 (some 57) true),
          ("g", .sectionMember "g" 66 (some 58) false),
          ("p", .parameter 50 "p" true true (some .number)),
          ("x", .keyValuePair "x" 30 (some 27) false),
          ("@y", .keyValuePair "y" 33 (some 25) true),
          ("_", .each 25),
          ("@a", .keyValuePair "a" 12 (some 5) true),
          ("b", .keyValuePair "b" 9 (some 1) false)] ∧
      scopes[27]? = some
        [("@f", .sectionMember "f" 60 (some 57) true),
          ("g", .sectionMember "g" 66 (some 58) false),
          ("p", .parameter 50 "p" true true (some .number)),
          ("@x", .keyValuePair "x" 30 (some 27) true),
          ("y", .keyValuePair "y" 33 (some 25) false)] := by
  have succeeds : (resolveScope sectionSample 5 none .never).1.isOk := by decide +kernel
  cases resolved : (resolveScope sectionSample 5 none .never).1 with
  | error failure => simp [resolved, Except.isOk, Except.toBool] at succeeds
  | ok scopes =>
      have atEntry : ∀ {id : NodeId} {scope : Scope},
          ((resolveScope sectionSample 5 none .never).1.toOption.bind fun found => found[id]?) =
            some scope → scopes[id]? = some scope := by
        intro id scope found
        rwa [resolved] at found
      exact ⟨scopes, rfl, resolveScope_lexical (by decide +kernel) resolved,
        atEntry (by decide +kernel), atEntry (by decide +kernel)⟩

end FormulaInspection
