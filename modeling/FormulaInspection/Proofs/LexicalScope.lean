import FormulaInspection.Proofs.NameMap
import FormulaInspection.Proofs.Readings
import FormulaInspection.Scope.Resolver

/-!
The scope of a node as the text of a formula gives it, by recursion on the parent: a node sees what
its parent sees, and a few constructs bind names for one of the nodes inside them. Nothing here
speaks of a walk, of layers or of what was resolved before.
-/

namespace FormulaInspection

def NodeKind.pairsSlot : NodeKind → Nat
  | .letExpression => Slot.letBindings
  | .section => Slot.sectionMembers
  | _ => Slot.wrappedContent

def NodeKind.pairItem : NodeKind → String → NodeId → Option NodeId → Bool → ScopeItem
  | .section => .sectionMember
  | _ => .keyValuePair

namespace Graph

variable {graph : Graph} {fault : Prop}

def ownedPairs (graph : Graph) (owner : Node) : Except InspectionError (List KeyValuePair) :=
  match owner.kind with
  | .letExpression => graph.letPairs owner
  | .recordExpression | .recordLiteral => graph.recordPairs owner
  | .section => graph.sectionPairs owner
  | _ => .ok []

theorem ownedPairs_other (graph : Graph) {node : Node} (notLet : node.kind ≠ .letExpression)
    (notRecord : node.kind ≠ .recordExpression) (notLiteral : node.kind ≠ .recordLiteral)
    (notSection : node.kind ≠ .section) : graph.ownedPairs node = .ok [] := by
  unfold ownedPairs
  split <;> first | contradiction | rfl

inductive PairOwner (graph : Graph) (owner : NodeId) (slot : Nat) (pair : Node) : Prop
  | element : graph.ElementAt owner slot pair → PairOwner graph owner slot pair
  | member {member} : graph.ElementAt owner slot member → member.kind = .sectionMember →
      graph.InSlot member.id Slot.sectionMemberPair pair → PairOwner graph owner slot pair

theorem ownedPairs_meets (sound : ¬fault → graph.ShapeCorrect) {owner : Node}
    (stored : graph.Stored owner) :
    Meets fault
      (fun pairs => ∀ pair ∈ pairs, graph.PairReading pair ∧
        graph.PairOwner owner.id owner.kind.pairsSlot pair.pair)
      (graph.ownedPairs owner) := by
  unfold ownedPairs
  split
  · rename_i kind
    refine (letPairs_meets sound stored kind).weaken fun pairs facts pair member => ?_
    exact ⟨(facts pair member).2, .element (by rw [kind]; exact (facts pair member).1)⟩
  · rename_i kind
    refine (recordPairs_meets sound stored (Or.inl kind)).weaken fun pairs facts pair member => ?_
    exact ⟨(facts pair member).2, .element (by rw [kind]; exact (facts pair member).1)⟩
  · rename_i kind
    refine (recordPairs_meets sound stored (Or.inr kind)).weaken fun pairs facts pair member => ?_
    exact ⟨(facts pair member).2, .element (by rw [kind]; exact (facts pair member).1)⟩
  · rename_i kind
    refine (sectionPairs_meets sound stored kind).weaken fun pairs facts pair member => ?_
    obtain ⟨reading, holder, element, holderKind, inSlot⟩ := facts pair member
    exact ⟨reading, .member (by rw [kind]; exact element) holderKind inSlot⟩
  · intro pair member
    simp at member

theorem ownedPairs_facts {owner : Node} {pairs : List KeyValuePair} {pair : KeyValuePair}
    (stored : graph.Stored owner) (listed : graph.ownedPairs owner = .ok pairs)
    (member : pair ∈ pairs) :
    graph.PairReading pair ∧ graph.PairOwner owner.id owner.kind.pairsSlot pair.pair :=
  (ownedPairs_meets (fun impossible => absurd trivial impossible) stored).value listed pair member

theorem TreeShaped.elementOf_unique (tree : graph.TreeShaped) {left right node : Node}
    (leftStored : graph.Stored left) (rightStored : graph.Stored right)
    (leftKind : left.kind = .arrayWrapper) (rightKind : right.kind = .arrayWrapper)
    (inLeft : graph.ElementOf left.id node) (inRight : graph.ElementOf right.id node) :
    left = right := by
  have notCell : ∀ {wrapper cell : Node}, graph.Stored wrapper → wrapper.kind = .arrayWrapper →
      graph.ChildOf wrapper.id node → graph.Stored cell → cell.kind = .csv →
      ¬graph.ChildOf cell.id node := by
    intro wrapper cell wrapperStored wrapperKind ofWrapper cellStored cellKind ofCell
    have same := tree.stored_eq wrapperStored cellStored (tree.parent_unique ofWrapper ofCell)
    rw [same, cellKind] at wrapperKind
    cases wrapperKind
  cases inLeft with
  | plain ofLeft _ =>
      cases inRight with
      | plain ofRight _ =>
          exact tree.stored_eq leftStored rightStored (tree.parent_unique ofLeft ofRight)
      | cell ofRight isCell inCell =>
          exact absurd inCell.childOf (notCell leftStored leftKind ofLeft ofRight.stored isCell)
  | cell ofLeft isCell inCell =>
      cases inRight with
      | plain ofRight _ =>
          exact absurd inCell.childOf (notCell rightStored rightKind ofRight ofLeft.stored isCell)
      | cell ofRight _ inOther =>
          have same := tree.stored_eq ofLeft.stored ofRight.stored
            (tree.parent_unique inCell.childOf inOther.childOf)
          subst same
          exact tree.stored_eq leftStored rightStored (tree.parent_unique ofLeft ofRight)

theorem TreeShaped.elementAt_unique (tree : graph.TreeShaped) {left right : NodeId}
    {leftSlot rightSlot : Nat} {node : Node} (inLeft : graph.ElementAt left leftSlot node)
    (inRight : graph.ElementAt right rightSlot node) : left = right := by
  obtain ⟨leftWrapper, leftPlace, leftKind, leftHolds⟩ := inLeft
  obtain ⟨rightWrapper, rightPlace, rightKind, rightHolds⟩ := inRight
  have same := tree.elementOf_unique leftPlace.childOf.stored rightPlace.childOf.stored leftKind
    rightKind leftHolds rightHolds
  subst same
  exact tree.parent_unique leftPlace.childOf rightPlace.childOf

theorem TreeShaped.elementAt_not_member (tree : graph.TreeShaped) {owner : NodeId} {slot : Nat}
    {node member : Node} (element : graph.ElementAt owner slot node)
    (memberStored : graph.Stored member) (memberKind : member.kind = .sectionMember) :
    ¬graph.ChildOf member.id node := by
  intro ofMember
  obtain ⟨wrapper, place, kind, held⟩ := element
  cases held with
  | plain ofWrapper _ =>
      have same := tree.stored_eq place.childOf.stored memberStored
        (tree.parent_unique ofWrapper ofMember)
      rw [same, memberKind] at kind
      cases kind
  | cell ofWrapper isCell inCell =>
      have same := tree.stored_eq ofWrapper.stored memberStored
        (tree.parent_unique inCell.childOf ofMember)
      rw [same, memberKind] at isCell
      cases isCell

theorem TreeShaped.pairOwner_unique (tree : graph.TreeShaped) {left right : NodeId}
    {leftSlot rightSlot : Nat} {pair : Node} (ofLeft : graph.PairOwner left leftSlot pair)
    (ofRight : graph.PairOwner right rightSlot pair) : left = right := by
  cases ofLeft with
  | element inLeft =>
      cases ofRight with
      | element inRight => exact tree.elementAt_unique inLeft inRight
      | member inRight isMember inMember =>
          exact absurd inMember.childOf (tree.elementAt_not_member inLeft inRight.stored isMember)
  | member inLeft isMember inMember =>
      cases ofRight with
      | element inRight =>
          exact absurd inMember.childOf (tree.elementAt_not_member inRight inLeft.stored isMember)
      | member inRight _ inOther =>
          have same := tree.stored_eq inLeft.stored inRight.stored
            (tree.parent_unique inMember.childOf inOther.childOf)
          subst same
          exact tree.elementAt_unique inLeft inRight

theorem PairOwner.stored {owner : NodeId} {slot : Nat} {pair : Node}
    (owned : graph.PairOwner owner slot pair) : graph.Stored pair := by
  cases owned with
  | element inOwner => exact inOwner.stored
  | member _ _ inMember => exact inMember.childOf.stored

theorem ElementAt.below (tree : graph.TreeShaped) {owner : NodeId} {slot : Nat} {node : Node}
    (element : graph.ElementAt owner slot node) :
    ∃ wrapper, graph.InSlot owner slot wrapper ∧ graph.Below node.id wrapper.id := by
  obtain ⟨wrapper, place, _, held⟩ := element
  refine ⟨wrapper, place, ?_⟩
  cases held with
  | plain ofWrapper _ => exact .single (ofWrapper.isParent tree)
  | cell ofWrapper _ inCell =>
      exact .head (inCell.childOf.isParent tree) (.single (ofWrapper.isParent tree))

theorem PairOwner.below (tree : graph.TreeShaped) {owner : NodeId} {slot : Nat} {pair : Node}
    (owned : graph.PairOwner owner slot pair) :
    ∃ wrapper, graph.InSlot owner slot wrapper ∧ graph.Below pair.id wrapper.id := by
  cases owned with
  | element inOwner => exact inOwner.below tree
  | member inOwner _ inMember =>
      obtain ⟨wrapper, place, below⟩ := inOwner.below tree
      exact ⟨wrapper, place, .head (inMember.childOf.isParent tree) below⟩

theorem TreeShaped.value_unique (tree : graph.TreeShaped) {left right : Node}
    {leftPairs rightPairs : List KeyValuePair} {leftPair rightPair : KeyValuePair}
    {leftValue rightValue : Node} (leftStored : graph.Stored left)
    (rightStored : graph.Stored right) (leftListed : graph.ownedPairs left = .ok leftPairs)
    (rightListed : graph.ownedPairs right = .ok rightPairs) (inLeft : leftPair ∈ leftPairs)
    (inRight : rightPair ∈ rightPairs) (leftHas : leftPair.value? = some leftValue)
    (rightHas : rightPair.value? = some rightValue) (same : leftValue.id = rightValue.id) :
    left = right ∧ leftPair = rightPair := by
  obtain ⟨leftReading, leftOwner⟩ := ownedPairs_facts leftStored leftListed inLeft
  obtain ⟨rightReading, rightOwner⟩ := ownedPairs_facts rightStored rightListed inRight
  have leftPlace := (leftReading.value leftHas).childOf
  have rightPlace := (rightReading.value rightHas).childOf
  obtain rfl := tree.stored_eq leftPlace.stored rightPlace.stored same
  have samePair : leftPair.pair = rightPair.pair := tree.stored_eq leftOwner.stored
    rightOwner.stored (tree.parent_unique leftPlace rightPlace)
  have read := leftReading.read
  rw [samePair, rightReading.read] at read
  rw [samePair] at leftOwner
  exact ⟨tree.stored_eq leftStored rightStored (tree.pairOwner_unique leftOwner rightOwner),
    (Option.some.inj (Except.ok.inj read)).symm⟩

/-- `graph.Binds outer node items`: the node sees what `outer` sees, with `items` bound on top of it
from first to last. -/
inductive Binds (graph : Graph) : Node → Node → Scope → Prop
  | eachBody {each body} : graph.Stored each → each.kind = .eachExpression →
      graph.child? each.id Slot.eachBody = .ok (some body) →
      Binds graph each body [("_", .each each.id)]
  | functionBody {function body signature} : graph.Stored function →
      function.kind = .functionExpression →
      graph.child? function.id Slot.functionBody = .ok (some body) →
      graph.functionSignature function = .ok signature →
      Binds graph function body
        (signature.parameters.map fun parameter =>
          (parameter.name,
            .parameter parameter.id parameter.name parameter.isNullable parameter.isOptional
              parameter.declared?))
  | letBody {letNode body pairs} : graph.Stored letNode → letNode.kind = .letExpression →
      graph.InSlot letNode.id Slot.letBody body → graph.letPairs letNode = .ok pairs →
      Binds graph letNode body
        (pairs.map fun pair =>
          (pair.key, .keyValuePair pair.key pair.keyNode.id (pair.value?.map Node.id) false))
  | pairValue {owner value pairs pair} : graph.Stored owner → graph.ownedPairs owner = .ok pairs →
      pair ∈ pairs → pair.value? = some value →
      Binds graph owner value
        (pairs.map fun other =>
          if other.key = pair.key then
            ("@" ++ pair.key,
              owner.kind.pairItem pair.key pair.keyNode.id (some value.id) true)
          else
            (other.key,
              owner.kind.pairItem other.key other.keyNode.id (other.value?.map Node.id) false))

/-- The rules of lexical scope, for scopes given to all nodes at once. -/
structure LexicalScopes (graph : Graph) (scopeOf : NodeId → Scope) : Prop where
  root : ∀ {id}, graph.parentId? id = none → scopeOf id = []
  bound : ∀ {outer node items}, graph.Binds outer node items →
    scopeOf node.id = NameMap.setAll (scopeOf outer.id) items
  inherited : ∀ {id parent}, graph.parentId? id = some parent →
    (∀ outer node items, graph.Binds outer node items → node.id ≠ id) →
    scopeOf id = scopeOf parent

def bodyItems? (graph : Graph) (parent : Node) (id : NodeId) : Option Scope :=
  match parent.kind with
  | .eachExpression =>
    match graph.child? parent.id Slot.eachBody with
    | .ok (some body) => if body.id = id then some [("_", .each parent.id)] else none
    | _ => none
  | .functionExpression =>
    match graph.child? parent.id Slot.functionBody, graph.functionSignature parent with
    | .ok (some body), .ok signature =>
      if body.id = id then
        some (signature.parameters.map fun parameter =>
          (parameter.name,
            .parameter parameter.id parameter.name parameter.isNullable parameter.isOptional
              parameter.declared?))
      else none
    | _, _ => none
  | .letExpression =>
    match graph.letPairs parent with
    | .ok pairs =>
      if graph.slotOf id = some Slot.letBody then
        some (pairs.map fun pair =>
          (pair.key, .keyValuePair pair.key pair.keyNode.id (pair.value?.map Node.id) false))
      else none
    | .error _ => none
  | _ => none

def listing? (graph : Graph) (value : NodeId) :
    List Node → Option (Node × List KeyValuePair × KeyValuePair)
  | [] => none
  | owner :: rest =>
    match graph.ownedPairs owner with
    | .error _ => graph.listing? value rest
    | .ok pairs =>
      match pairs.find? fun pair => pair.value?.map Node.id == some value with
      | some pair => some (owner, pairs, pair)
      | none => graph.listing? value rest

def valueItems? (graph : Graph) (id : NodeId) (nodes : List Node) : Option (NodeId × Scope) :=
  (graph.listing? id nodes).map fun (owner, pairs, pair) =>
    (owner.id, pairs.map fun other =>
      if other.key = pair.key then
        ("@" ++ pair.key, owner.kind.pairItem pair.key pair.keyNode.id (some id) true)
      else
        (other.key,
          owner.kind.pairItem other.key other.keyNode.id (other.value?.map Node.id) false))

def outerScope? (graph : Graph) (id : NodeId) : List Node → Option (NodeId × Scope)
  | [] => none
  | parent :: above =>
    match graph.bodyItems? parent id with
    | some items => some (parent.id, items)
    | none =>
      match graph.valueItems? id (parent :: above) with
      | some binding => some binding
      | none => some (parent.id, [])

def scopeWithin (graph : Graph) : Nat → NodeId → Scope
  | 0, _ => []
  | steps + 1, id =>
    match graph.nodesAbove graph.size id with
    | .error _ => []
    | .ok above =>
      match graph.outerScope? id above with
      | some (outer, items) => NameMap.setAll (graph.scopeWithin steps outer) items
      | none => []

def lexicalScope (graph : Graph) (id : NodeId) : Scope :=
  graph.scopeWithin (graph.size + 1) id

theorem childSlot_some {parent : NodeId} {slot : Nat} {allowed : Option (List NodeKind)}
    {child : Node} (found : graph.child? parent slot allowed = .ok (some child)) :
    graph.InSlot parent slot child := by
  have reading : Meets True (fun child? => ∀ child, child? = some child →
      graph.InSlot parent slot child) (graph.child? parent slot allowed) := by
    refine (findInSlot_meets (fun noFault => absurd trivial noFault)
      (fun noFault => absurd trivial noFault)).weaken fun child? facts child same => ?_
    obtain ⟨id, member, hit, inSlot, _⟩ := facts.1 child same
    exact ⟨⟨id, member, hit⟩, inSlot⟩
  exact reading.value found child rfl

theorem Binds.outerStored {outer node : Node} {items : Scope} (binds : graph.Binds outer node items) :
    graph.Stored outer := by
  cases binds <;> assumption

theorem Binds.nodeStored {outer node : Node} {items : Scope} (binds : graph.Binds outer node items) :
    graph.Stored node := by
  cases binds with
  | eachBody _ _ read => exact (childSlot_some read).childOf.stored
  | functionBody _ _ read _ => exact (childSlot_some read).childOf.stored
  | letBody _ _ inSlot _ => exact inSlot.childOf.stored
  | pairValue stored listed member hasValue =>
      exact ((ownedPairs_facts stored listed member).1.value hasValue).childOf.stored

theorem listing?_sound {id : NodeId} {nodes : List Node} {owner : Node}
    {pairs : List KeyValuePair} {pair : KeyValuePair}
    (found : graph.listing? id nodes = some (owner, pairs, pair)) :
    owner ∈ nodes ∧ graph.ownedPairs owner = .ok pairs ∧ pair ∈ pairs ∧
      ∃ value, pair.value? = some value ∧ value.id = id := by
  induction nodes with
  | nil => simp [listing?] at found
  | cons first rest ih =>
      have fromRest : graph.listing? id rest = some (owner, pairs, pair) →
          owner ∈ first :: rest ∧ graph.ownedPairs owner = .ok pairs ∧ pair ∈ pairs ∧
            ∃ value, pair.value? = some value ∧ value.id = id :=
        fun later => ⟨List.mem_cons_of_mem _ (ih later).1, (ih later).2⟩
      unfold listing? at found
      split at found
      · exact fromRest found
      · rename_i pairs listed
        split at found
        · rename_i pair hit
          simp only [Option.some.injEq, Prod.mk.injEq] at found
          obtain ⟨rfl, rfl, rfl⟩ := found
          have named := List.find?_some hit
          exact ⟨by simp, listed, List.mem_of_find?_eq_some hit,
            Option.map_eq_some_iff.mp (beq_iff_eq.mp named)⟩
        · exact fromRest found

theorem TreeShaped.listing?_complete (tree : graph.TreeShaped) {nodes : List Node}
    {owner value : Node} {pairs : List KeyValuePair} {pair : KeyValuePair}
    (stored : ∀ node ∈ nodes, graph.Stored node) (inNodes : owner ∈ nodes)
    (listed : graph.ownedPairs owner = .ok pairs) (member : pair ∈ pairs)
    (hasValue : pair.value? = some value) :
    graph.listing? value.id nodes = some (owner, pairs, pair) := by
  induction nodes with
  | nil => simp at inNodes
  | cons first rest ih =>
      have later : first ≠ owner → graph.listing? value.id rest = some (owner, pairs, pair) :=
        fun different => ih (fun node inRest => stored node (List.mem_cons_of_mem _ inRest))
          ((List.mem_cons.mp inNodes).resolve_left (Ne.symm different))
      have ownerStored := stored owner inNodes
      unfold listing?
      split
      · rename_i failure failed
        refine later ?_
        rintro rfl
        rw [listed] at failed
        cases failed
      · rename_i others othersListed
        split
        · rename_i other hit
          have named := List.find?_some hit
          obtain ⟨otherValue, hasOther, sameId⟩ := Option.map_eq_some_iff.mp (beq_iff_eq.mp named)
          obtain ⟨rfl, rfl⟩ := tree.value_unique (stored first (by simp)) ownerStored othersListed
            listed (List.mem_of_find?_eq_some hit) member hasOther hasValue sameId
          rw [listed] at othersListed
          obtain rfl := Except.ok.inj othersListed
          rfl
        · rename_i missing
          refine later ?_
          rintro rfl
          rw [listed] at othersListed
          obtain rfl := Except.ok.inj othersListed
          simpa [hasValue] using List.find?_eq_none.mp missing pair member

theorem valueItems?_sound {id outer : NodeId} {nodes : List Node} {items : Scope}
    (stored : ∀ node ∈ nodes, graph.Stored node)
    (found : graph.valueItems? id nodes = some (outer, items)) :
    ∃ owner ∈ nodes, ∃ value, owner.id = outer ∧ value.id = id ∧ graph.Binds owner value items := by
  obtain ⟨⟨owner, pairs, pair⟩, hit, same⟩ := Option.map_eq_some_iff.mp found
  obtain ⟨inNodes, listed, member, value, hasValue, rfl⟩ := listing?_sound hit
  simp only [Prod.mk.injEq] at same
  obtain ⟨rfl, rfl⟩ := same
  exact ⟨owner, inNodes, value, rfl, rfl, .pairValue (stored owner inNodes) listed member hasValue⟩

theorem TreeShaped.bodyItems?_sound (tree : graph.TreeShaped) {parent node : Node} {items : Scope}
    (parentStored : graph.Stored parent) (childOf : graph.ChildOf parent.id node)
    (found : graph.bodyItems? parent node.id = some items) : graph.Binds parent node items := by
  have isNode : ∀ {slot : Nat} {body : Node}, graph.child? parent.id slot = .ok (some body) →
      body.id = node.id → body = node := fun read same =>
    tree.stored_eq (childSlot_some read).childOf.stored childOf.stored same
  unfold bodyItems? at found
  split at found
  · rename_i kind
    split at found
    · rename_i body read
      split at found
      · rename_i same
        obtain rfl := isNode read same
        obtain rfl := Option.some.inj found
        exact .eachBody parentStored kind read
      · cases found
    · cases found
  · rename_i kind
    split at found
    · rename_i body signature read analysed
      split at found
      · rename_i same
        obtain rfl := isNode read same
        obtain rfl := Option.some.inj found
        exact .functionBody parentStored kind read analysed
      · cases found
    · cases found
  · rename_i kind
    split at found
    · rename_i pairs listed
      split at found
      · rename_i slot
        obtain rfl := Option.some.inj found
        have hit := tree.stored_iff.mp childOf.stored
        exact .letBody parentStored kind ⟨childOf, by simpa [slotOf, hit] using slot⟩ listed
      · cases found
    · cases found
  · cases found

theorem bodyItems?_pair {parent : Node} {id : NodeId} (isPair : parent.kind ∈ NodeKind.pairKinds) :
    graph.bodyItems? parent id = none := by
  simp only [NodeKind.pairKinds, List.mem_cons, List.not_mem_nil, or_false] at isPair
  rcases isPair with kind | kind | kind <;> simp [bodyItems?, kind]

/-- What a construct binds for its body is found at once; what an owner binds for a value is found
above a pair, whose kind binds nothing itself. -/
theorem TreeShaped.outerScope?_bound (tree : graph.TreeShaped) {outer node : Node} {items : Scope}
    {above : List Node} (path : graph.RootPath node.id above)
    (binds : graph.Binds outer node items) :
    graph.outerScope? node.id above = some (outer.id, items) := by
  have fromParent : ∀ {parent : Node} {items : Scope}, graph.Stored parent →
      graph.ChildOf parent.id node → graph.bodyItems? parent node.id = some items →
      graph.outerScope? node.id above = some (parent.id, items) := by
    intro parent items parentStored childOf found
    cases path with
    | root noParent => exact absurd (childOf.isParent tree) (by simp [IsParent, noParent])
    | step hasParent hit rest =>
        obtain rfl := Option.some.inj ((childOf.isParent tree).symm.trans hasParent)
        obtain rfl := Option.some.inj ((tree.stored_iff.mp parentStored).symm.trans hit)
        simp [outerScope?, found]
  cases binds with
  | eachBody stored kind read =>
      exact fromParent stored (childSlot_some read).childOf (by simp [bodyItems?, kind, read])
  | functionBody stored kind read analysed =>
      exact fromParent stored (childSlot_some read).childOf
        (by simp [bodyItems?, kind, read, analysed])
  | letBody stored kind inSlot listed =>
      have hit := tree.stored_iff.mp inSlot.childOf.stored
      exact fromParent stored inSlot.childOf
        (by simp [bodyItems?, kind, listed, slotOf, hit, inSlot.slot])
  | pairValue stored listed member hasValue =>
      rename_i pairs pair
      obtain ⟨reading, owned⟩ := ownedPairs_facts stored listed member
      have inPair := (reading.value hasValue).childOf
      obtain ⟨wrapper, place, below⟩ := owned.below tree
      have ownerAbove : Relation.TransGen graph.IsParent node.id outer.id :=
        .head' (inPair.isParent tree) (below.tail (place.childOf.isParent tree))
      obtain ⟨owner, inPath, sameId⟩ := (path.mem_iff tree).mpr ownerAbove
      obtain rfl := tree.stored_eq (path.stored inPath) stored sameId
      have found := tree.listing?_complete (fun _ inAbove => path.stored inAbove) inPath listed
        member hasValue
      cases path with
      | root noParent => simp at inPath
      | step hasParent hit rest =>
          obtain rfl := Option.some.inj ((inPair.isParent tree).symm.trans hasParent)
          obtain rfl := Option.some.inj ((tree.stored_iff.mp owned.stored).symm.trans hit)
          simp [outerScope?, bodyItems?_pair reading.kind, valueItems?, found]

theorem TreeShaped.outerScope?_inherited (tree : graph.TreeShaped) {id : NodeId} {parent : Node}
    {above : List Node} (path : graph.RootPath id (parent :: above))
    (free : ∀ outer node items, graph.Binds outer node items → node.id ≠ id) :
    graph.outerScope? id (parent :: above) = some (parent.id, []) := by
  have noValue : graph.valueItems? id (parent :: above) = none := by
    cases found : graph.valueItems? id (parent :: above) with
    | none => rfl
    | some binding =>
        obtain ⟨owner, _, value, _, same, binds⟩ :=
          valueItems?_sound (fun _ inAbove => path.stored inAbove) found
        exact absurd same (free owner value binding.2 binds)
  cases path with
  | step hasParent hit rest =>
      obtain ⟨node, found⟩ := Option.isSome_iff_exists.mp (tree.linked hasParent).1
      obtain rfl := tree.ownId found
      obtain rfl := tree.ownId hit
      have childOf : graph.ChildOf parent.id node := tree.childOf_iff.mpr ⟨⟨_, found⟩, hasParent⟩
      have noBody : graph.bodyItems? parent node.id = none := by
        cases items : graph.bodyItems? parent node.id with
        | none => rfl
        | some bound =>
            exact absurd rfl (free parent node bound (tree.bodyItems?_sound ⟨_, hit⟩ childOf items))
      simp [outerScope?, noBody, noValue]

theorem outerScope?_above {id outer : NodeId} {above : List Node} {items : Scope}
    (stored : ∀ node ∈ above, graph.Stored node)
    (found : graph.outerScope? id above = some (outer, items)) :
    ∃ node ∈ above, node.id = outer := by
  cases above with
  | nil => simp [outerScope?] at found
  | cons parent rest =>
      simp only [outerScope?] at found
      split at found
      · simp only [Option.some.injEq, Prod.mk.injEq] at found
        exact ⟨parent, by simp, found.1⟩
      · split at found
        · rename_i binding value
          obtain rfl := Option.some.inj found
          obtain ⟨owner, member, _, same, _⟩ := valueItems?_sound stored value
          exact ⟨owner, member, same⟩
        · simp only [Option.some.injEq, Prod.mk.injEq] at found
          exact ⟨parent, by simp, found.1⟩

theorem TreeShaped.scopeWithin_stable (tree : graph.TreeShaped) {steps others : Nat} {id : NodeId}
    {above : List Node} (path : graph.RootPath id above) (short : above.length ≤ graph.size)
    (enough : above.length < steps) (othersEnough : above.length < others) :
    graph.scopeWithin steps id = graph.scopeWithin others id := by
  induction steps generalizing others id above with
  | zero => omega
  | succ steps ih =>
      cases others with
      | zero => omega
      | succ others =>
          simp only [scopeWithin, nodesAbove_of_rootPath path short]
          cases found : graph.outerScope? id above with
          | none => rfl
          | some binding =>
              obtain ⟨node, member, same⟩ :=
                outerScope?_above (fun _ inAbove => path.stored inAbove) found
              obtain ⟨rest, restPath, shorter⟩ := path.rest tree member
              rw [same] at restPath
              simp only [ih restPath (by omega) (by omega) (show rest.length < others by omega)]

theorem TreeShaped.lexicalScope_eq (tree : graph.TreeShaped) {id outer : NodeId}
    {above : List Node} {items : Scope} (path : graph.RootPath id above)
    (short : above.length ≤ graph.size)
    (found : graph.outerScope? id above = some (outer, items)) :
    graph.lexicalScope id = NameMap.setAll (graph.lexicalScope outer) items := by
  obtain ⟨node, member, same⟩ := outerScope?_above (fun _ inAbove => path.stored inAbove) found
  obtain ⟨rest, restPath, shorter⟩ := path.rest tree member
  rw [same] at restPath
  simp only [lexicalScope]
  rw [scopeWithin, nodesAbove_of_rootPath path short]
  simp only [found]
  rw [tree.scopeWithin_stable restPath (by omega) (by omega)
    (show rest.length < graph.size + 1 by omega)]

theorem TreeShaped.lexicalScope_lexical (tree : graph.TreeShaped) :
    graph.LexicalScopes graph.lexicalScope where
  root := by
    intro id noParent
    have path : graph.RootPath id [] := .root noParent
    rw [lexicalScope, scopeWithin, nodesAbove_of_rootPath path (by simp)]
    rfl
  bound := by
    intro outer node items binds
    obtain ⟨above, path, short⟩ := tree.exists_rootPath
      (Option.isSome_of_mem (tree.stored_iff.mp binds.nodeStored))
    exact tree.lexicalScope_eq path short (tree.outerScope?_bound path binds)
  inherited := by
    intro id parent hasParent free
    obtain ⟨above, path, short⟩ := tree.exists_rootPath (tree.linked hasParent).1
    cases path with
    | root noParent => simp [noParent] at hasParent
    | step link hit rest =>
        obtain rfl := Option.some.inj (link.symm.trans hasParent)
        have found := tree.outerScope?_inherited (.step link hit rest) free
        rw [tree.ownId hit] at found
        exact tree.lexicalScope_eq (.step link hit rest) short found

end Graph

end FormulaInspection
