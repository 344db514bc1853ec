import FormulaInspection.Graph.Builder
import FormulaInspection.Proofs.BoundItems
import FormulaInspection.Proofs.Evaluation
import FormulaInspection.Proofs.ShapeCheck

/-!
Names that are bound to other names. The chain of such aliases is followed use by use, each in the
scope at its own node, until it ends or turns back. It cannot go on for longer than the graph has
nodes, so the limit on hops is never what stops it.
-/

namespace FormulaInspection

structure UseSite where
  node : Node
  use : NameUse
  state : Progress

namespace Graph

variable {graph : Graph} {node : Node}

/-- The name that a node uses: an identifier by itself, or an expression `name` or `@name`. -/
def usedName? (graph : Graph) (node : Node) : Option NameUse :=
  match node.kind with
  | .identifier => node.identifier?.map fun name => ⟨name, false⟩
  | .identifierExpression =>
    match graph.child? node.id Slot.inclusiveMark,
      graph.child? node.id Slot.identifier (some [.identifier]) with
    | .ok mark?, .ok (some written) => written.identifier?.map fun name => ⟨name, mark?.isSome⟩
    | _, _ => none
  | _ => none

def isUseRead (graph : Graph) (node : Node) : Bool :=
  node.kind != .identifierExpression ||
    (graph.child? node.id Slot.inclusiveMark).isOk &&
      (graph.child? node.id Slot.identifier (some [.identifier])).isOk

theorem nameUse?_eq_ok {use? : Option NameUse} :
    graph.nameUse? node = .ok use? ↔ graph.isUseRead node ∧ graph.usedName? node = use? := by
  unfold nameUse? usedName? isUseRead
  split
  · rename_i kind
    simp [kind]
  · rename_i kind
    unfold hasChild
    cases graph.child? node.id Slot.inclusiveMark with
    | error failure => simp [kind, Except.map, bind, Except.bind, Except.isOk, Except.toBool]
    | ok mark? =>
        cases graph.child? node.id Slot.identifier (some [.identifier]) with
        | error failure => simp [kind, Except.map, bind, Except.bind, Except.isOk, Except.toBool]
        | ok written? =>
            cases written? <;>
              simp [kind, Except.map, bind, Except.bind, Except.isOk, Except.toBool, pure,
                Except.pure]
  · rename_i notIdentifier notExpression
    have isRead : (node.kind != .identifierExpression) = true := bne_iff_ne.mpr notExpression
    simp [isRead]

theorem nameUse?_eq_some {use : NameUse} :
    graph.nameUse? node = .ok (some use) ↔ graph.usedName? node = some use := by
  rw [nameUse?_eq_ok, and_iff_right_iff_imp]
  intro named
  unfold usedName? at named
  split at named
  · rename_i kind
    simp [isUseRead, kind]
  · split at named
    · rename_i marked read
      simp [isUseRead, marked, read, Except.isOk, Except.toBool]
    · simp at named
  · simp at named

end Graph

namespace Evaluator

variable {evaluator : Evaluator} {infer : Node → Progress → Outcome Ty}

/-- What `name`, or `@name` where it is so written, is bound to in the scope at the node. -/
def bindingAt (evaluator : Evaluator) (site : UseSite) : Outcome (Option ScopeItem) :=
  match site.state.cancellation.poll with
  | .error failure => (.error failure, site.state)
  | .ok cancellation =>
    match evaluator.resolve site.node.id (site.state.polled cancellation) with
    | (.error failure, after) => (.error failure, after)
    | (.ok (), after) =>
      match after.scopes[site.node.id]?.or evaluator.givenScopes[site.node.id]? with
      | none => (.error (.missingScope site.node.id), after)
      | some scope =>
        (.ok (scope.lookup (if site.use.isInclusive then "@" ++ site.use.name else site.use.name)),
          after)

def boundNode? (evaluator : Evaluator) : Option ScopeItem → Option Node
  | some (.keyValuePair _ _ (some value) _) | some (.sectionMember _ _ (some value) _) =>
    evaluator.graph.node? value
  | _ => none

def aliasOf? (evaluator : Evaluator) (site : UseSite) : Option UseSite :=
  match evaluator.bindingAt site with
  | (.error _, _) => none
  | (.ok item?, after) =>
    match evaluator.boundNode? item? with
    | none => none
    | some node =>
      match evaluator.graph.usedName? node with
      | some use => some ⟨node, use, after⟩
      | none => none

def siteAfter (evaluator : Evaluator) (start : UseSite) : Nat → Option UseSite
  | 0 => some start
  | hops + 1 => (evaluator.siteAfter start hops).bind evaluator.aliasOf?

/-- Neither the scope at the node nor the children of the bound value fail to be read. -/
def isLegible (evaluator : Evaluator) (site : UseSite) : Bool :=
  match evaluator.bindingAt site with
  | (.error _, _) => false
  | (.ok item?, _) =>
    match evaluator.boundNode? item? with
    | none => true
    | some node => evaluator.graph.isUseRead node

/-- After so many hops the chain comes to a use that is marked differently from the first one, or to
a node that it has visited. -/
def TurnsBack (evaluator : Evaluator) (start : UseSite) (hops : Nat) : Prop :=
  ∃ site, evaluator.siteAfter start hops = some site ∧
    (site.use.isInclusive ≠ start.use.isInclusive ∨
      ∃ earlier < hops, ∃ other, evaluator.siteAfter start earlier = some other ∧
        other.node.id = site.node.id)

section

variable {site next : UseSite} {item? : Option ScopeItem} {after : Progress} {first : NodeId}
  {marked : Bool} {hopsLeft : Nat} {visited : List NodeId}

theorem bindingAt_eq (site : UseSite) :
    evaluator.bindingAt site =
      match site.state.cancellation.poll with
      | .error failure => (.error failure, site.state)
      | .ok cancellation =>
        evaluator.lookUp site.node.id site.use.key (site.state.polled cancellation) := by
  unfold bindingAt lookUp knownScope? NameUse.key
  simp only [NameMap.get?_eq_lookup]
  cases site.state.cancellation.poll with
  | error failure => rfl
  | ok cancellation =>
      simp only
      cases evaluator.resolve site.node.id (site.state.polled cancellation) with
      | mk result after =>
          cases result with
          | error failure => rfl
          | ok _ =>
              simp only
              cases after.scopes[site.node.id]?.or evaluator.givenScopes[site.node.id]? <;> rfl

theorem boundNode?_some (item : ScopeItem) :
    evaluator.boundNode? (some item) = item.boundValue?.bind evaluator.graph.node? := by
  cases item with
  | keyValuePair key keyNode value? isRecursive => cases value? <;> rfl
  | sectionMember key keyNode value? isRecursive => cases value? <;> rfl
  | each expression => rfl
  | parameter node name isNullable isOptional declared? => rfl
  | undefined node => rfl

theorem run_bindingAt {α : Type} (site : UseSite) (onward : Option ScopeItem → Demand α) :
    evaluator.run infer (.poll (Demand.askBinding site.node.id site.use.key >>= onward))
        site.state =
      Outcome.andThen (evaluator.bindingAt site) fun item? =>
        evaluator.run infer (onward item?) := by
  unfold run
  rw [bindingAt_eq]
  cases site.state.cancellation.poll with
  | error failure => rfl
  | ok cancellation => exact run_binding infer _ _ _ _

theorem aliasOf?_eq_some : evaluator.aliasOf? site = some next ↔
    ∃ item value, evaluator.bindingAt site = (.ok (some item), next.state) ∧
      item.boundValue? = some value ∧ evaluator.graph.node? value = some next.node ∧
      evaluator.graph.nameUse? next.node = .ok (some next.use) := by
  unfold aliasOf?
  constructor
  · intro hop
    split at hop
    · simp at hop
    · rename_i item? after found
      split at hop
      · simp at hop
      · rename_i node bound
        split at hop
        · rename_i use uses
          cases hop
          cases item? with
          | none => simp [boundNode?] at bound
          | some item =>
              rw [boundNode?_some] at bound
              obtain ⟨value, hasValue, stored⟩ := Option.bind_eq_some_iff.mp bound
              exact ⟨item, value, found, hasValue, stored, Graph.nameUse?_eq_some.mpr uses⟩
        · simp at hop
  · rintro ⟨item, value, found, bound, stored, uses⟩
    have isBound : evaluator.boundNode? (some item) = some next.node := by
      simp [boundNode?_some, bound, stored]
    simp [found, isBound, Graph.nameUse?_eq_some.mp uses]

theorem run_followAliases_last (found : evaluator.bindingAt site = (.ok item?, after))
    (points : ∀ item ∈ item?, item.PointsInto evaluator.graph) (legible : evaluator.isLegible site)
    (last : evaluator.aliasOf? site = none) :
    evaluator.run infer
        (evaluator.graph.followAliases first marked hopsLeft visited site.node.id site.use)
        site.state =
      (.ok (.item (item?.getD (.undefined first))), after) := by
  unfold Graph.followAliases
  rw [run_bindingAt, found]
  cases item? with
  | none => rfl
  | some item =>
      simp only [Outcome.andThen]
      cases bound : item.boundValue? with
      | none => rfl
      | some value =>
          obtain ⟨node, stored⟩ :=
            Option.isSome_iff_exists.mp ((points item rfl).boundValue bound)
          have isBound : evaluator.boundNode? (some item) = some node := by
            simp [boundNode?_some, bound, stored]
          have noUse : evaluator.graph.nameUse? node = .ok none := by
            refine Graph.nameUse?_eq_ok.mpr ⟨by simpa [isLegible, found, isBound] using legible, ?_⟩
            cases uses : evaluator.graph.usedName? node with
            | none => rfl
            | some use => simp [aliasOf?, found, isBound, uses] at last
          simp only [Graph.node_eq_ok.mpr stored, noUse, Demand.bind_read]
          rfl

theorem run_followAliases_turn (hop : evaluator.aliasOf? site = some next)
    (turns : next.use.isInclusive ≠ marked ∨ next.node.id ∈ visited) :
    evaluator.run infer
        (evaluator.graph.followAliases first marked hopsLeft visited site.node.id site.use)
        site.state =
      (.ok .recursive, next.state) := by
  obtain ⟨item, value, found, bound, stored, uses⟩ := aliasOf?_eq_some.mp hop
  have stops : (next.use.isInclusive != marked || visited.contains next.node.id) = true := by
    simpa using turns
  unfold Graph.followAliases
  rw [run_bindingAt, found]
  simp only [Outcome.andThen, bound, Graph.node_eq_ok.mpr stored, uses, Demand.bind_read, stops,
    if_true]
  rfl

theorem run_followAliases_go (hop : evaluator.aliasOf? site = some next)
    (same : next.use.isInclusive = marked) (new : next.node.id ∉ visited) :
    evaluator.run infer
        (evaluator.graph.followAliases first marked (hopsLeft + 1) visited site.node.id site.use)
        site.state =
      evaluator.run infer
        (evaluator.graph.followAliases first marked hopsLeft (next.node.id :: visited) next.node.id
          next.use)
        next.state := by
  obtain ⟨item, value, found, bound, stored, uses⟩ := aliasOf?_eq_some.mp hop
  have goes : (next.use.isInclusive != marked || visited.contains next.node.id) = false := by
    simpa using ⟨same, new⟩
  rw [Graph.followAliases, run_bindingAt, found]
  simp only [Outcome.andThen, bound, Graph.node_eq_ok.mpr stored, uses, Demand.bind_read, goes]
  rfl

end

theorem bindingAt_backed (invariant : ScopeInvariant evaluator.graph evaluator.graph.Backed)
    (given : evaluator.graph.Backed evaluator.givenScopes) {site : UseSite}
    (backed : evaluator.graph.Backed site.state.scopes) {item? : Option ScopeItem}
    {after : Progress} (found : evaluator.bindingAt site = (.ok item?, after)) :
    evaluator.graph.Backed after.scopes ∧ ∀ item ∈ item?, item.PointsInto evaluator.graph := by
  rw [bindingAt_eq] at found
  split at found
  · simp at found
  · rename_i cancellation _
    have kept := @ScopeInvariant.resolve evaluator _ invariant given site.node.id
      (site.state.polled cancellation) backed
    unfold lookUp at found
    split at found
    · simp at found
    · rename_i between resolved
      rw [resolved] at kept
      split at found
      · rename_i scope known
        simp only [Prod.mk.injEq, Except.ok.injEq] at found
        obtain ⟨rfl, rfl⟩ := found
        refine ⟨kept, fun item isItem => ?_⟩
        have inScope := NameMap.mem_of_get? isItem
        rcases Option.or_eq_some_iff.mp known with written | ⟨-, isGiven⟩
        · exact kept _ scope written _ inScope
        · exact given _ scope isGiven _ inScope
      · simp at found

structure Follows (evaluator : Evaluator) (start : UseSite) (hops : Nat) (visited : List NodeId)
    (site : UseSite) : Prop where
  reached : evaluator.siteAfter start hops = some site
  straight : ∀ earlier ≤ hops, ¬evaluator.TurnsBack start earlier
  seen : ∀ {id}, id ∈ visited ↔ ∃ earlier ≤ hops, ∃ other,
    evaluator.siteAfter start earlier = some other ∧ other.node.id = id
  distinct : visited.Nodup
  length : visited.length = hops + 1
  stored : ∀ id ∈ visited, (evaluator.graph.node? id).isSome
  backed : evaluator.graph.Backed site.state.scopes

namespace Follows

variable {start site next : UseSite} {hops : Nat} {visited : List NodeId}

theorem begin (stored : (evaluator.graph.node? start.node.id).isSome)
    (backed : evaluator.graph.Backed start.state.scopes) :
    evaluator.Follows start 0 [start.node.id] start where
  reached := rfl
  straight := by
    rintro earlier atStart ⟨site, reached, turns⟩
    obtain rfl : earlier = 0 := by omega
    cases reached
    simp at turns
  seen := by
    intro id
    simp [siteAfter, eq_comm]
  distinct := by simp
  length := rfl
  stored := by simpa using stored
  backed := backed

theorem short (follows : evaluator.Follows start hops visited site) :
    hops < evaluator.graph.size := by
  have bound := Graph.length_le_size follows.distinct follows.stored
  have length := follows.length
  omega

theorem siteAfter_next (follows : evaluator.Follows start hops visited site) :
    evaluator.siteAfter start (hops + 1) = evaluator.aliasOf? site := by
  rw [siteAfter, follows.reached]
  rfl

theorem turnsBack_iff (follows : evaluator.Follows start hops visited site)
    (hop : evaluator.aliasOf? site = some next) :
    evaluator.TurnsBack start (hops + 1) ↔
      next.use.isInclusive ≠ start.use.isInclusive ∨ next.node.id ∈ visited := by
  unfold TurnsBack
  rw [follows.siteAfter_next, hop, follows.seen]
  simp only [Option.some.injEq, exists_eq_left', Nat.lt_succ_iff]

theorem hop (follows : evaluator.Follows start hops visited site) (keyed : evaluator.graph.Keyed)
    (given : evaluator.graph.Backed evaluator.givenScopes)
    (isAlias : evaluator.aliasOf? site = some next)
    (onward : ¬evaluator.TurnsBack start (hops + 1)) :
    evaluator.Follows start (hops + 1) (next.node.id :: visited) next := by
  obtain ⟨item, value, found, -, hit, -⟩ := aliasOf?_eq_some.mp isAlias
  have reached : evaluator.siteAfter start (hops + 1) = some next := by
    rw [follows.siteAfter_next, isAlias]
  rw [follows.turnsBack_iff isAlias, not_or] at onward
  constructor
  · exact reached
  · intro earlier bound
    by_cases isNext : earlier = hops + 1
    · rw [isNext, follows.turnsBack_iff isAlias, not_or]
      exact onward
    · exact follows.straight earlier (by omega)
  · intro id
    rw [List.mem_cons, follows.seen]
    constructor
    · rintro (rfl | ⟨earlier, bound, other⟩)
      · exact ⟨hops + 1, Nat.le_refl _, next, reached, rfl⟩
      · exact ⟨earlier, by omega, other⟩
    · rintro ⟨earlier, bound, other, isOther, sameId⟩
      by_cases isNext : earlier = hops + 1
      · rw [isNext, reached] at isOther
        cases isOther
        exact Or.inl sameId.symm
      · exact Or.inr ⟨earlier, by omega, other, isOther, sameId⟩
  · exact List.nodup_cons.mpr ⟨onward.2, follows.distinct⟩
  · rw [List.length_cons, follows.length]
  · refine List.forall_mem_cons.mpr ⟨?_, follows.stored⟩
    rw [keyed hit, hit]
    rfl
  · exact (bindingAt_backed keyed.scopeInvariant given follows.backed found).1

end Follows

inductive Concludes (evaluator : Evaluator) (start : UseSite) : Outcome Meaning → Prop
  | turned {hops visited last next} : evaluator.Follows start hops visited last →
      evaluator.aliasOf? last = some next → evaluator.TurnsBack start (hops + 1) →
      Concludes evaluator start (.ok .recursive, next.state)
  | ended {hops visited last item? after} : evaluator.Follows start hops visited last →
      evaluator.aliasOf? last = none → evaluator.bindingAt last = (.ok item?, after) →
      Concludes evaluator start (.ok (.item (item?.getD (.undefined start.node.id))), after)

theorem run_followAliases (keyed : evaluator.graph.Keyed)
    (given : evaluator.graph.Backed evaluator.givenScopes) {start site : UseSite}
    (legible : ∀ {hops visited site}, evaluator.Follows start hops visited site →
      evaluator.isLegible site)
    {hopsLeft hops : Nat} {visited : List NodeId}
    (follows : evaluator.Follows start hops visited site)
    (left : hops + hopsLeft = evaluator.graph.size) :
    evaluator.Concludes start (evaluator.run infer (evaluator.graph.followAliases start.node.id
      start.use.isInclusive hopsLeft visited site.node.id site.use) site.state) := by
  induction hopsLeft generalizing hops visited site with
  | zero =>
      have short := follows.short
      omega
  | succ hopsLeft ih =>
      have isLegible := legible follows
      obtain ⟨item?, after, found⟩ : ∃ item? after,
          evaluator.bindingAt site = (.ok item?, after) := by
        unfold Evaluator.isLegible at isLegible
        split at isLegible
        · simp at isLegible
        · rename_i item? after found
          exact ⟨item?, after, found⟩
      cases isAlias : evaluator.aliasOf? site with
      | none =>
          have points := (bindingAt_backed keyed.scopeInvariant given follows.backed found).2
          rw [run_followAliases_last found points isLegible isAlias]
          exact .ended follows isAlias found
      | some next =>
          by_cases turns : evaluator.TurnsBack start (hops + 1)
          · rw [run_followAliases_turn isAlias ((follows.turnsBack_iff isAlias).mp turns)]
            exact .turned follows isAlias turns
          · have onward := turns
            rw [follows.turnsBack_iff isAlias, not_or, not_not] at onward
            rw [run_followAliases_go isAlias onward.1 onward.2]
            exact ih (follows.hop keyed given isAlias turns) (by omega)

theorem siteAfter_eq_none {start : UseSite} {hops later : Nat}
    (ended : evaluator.siteAfter start hops = none) (beyond : hops ≤ later) :
    evaluator.siteAfter start later = none := by
  induction later with
  | zero =>
      obtain rfl : hops = 0 := by omega
      exact ended
  | succ later ih =>
      by_cases last : hops = later + 1
      · rw [← last]
        exact ended
      · rw [siteAfter, ih (by omega)]
        rfl

theorem Follows.never_turnsBack {start last : UseSite} {hops : Nat} {visited : List NodeId}
    (follows : evaluator.Follows start hops visited last)
    (ended : evaluator.aliasOf? last = none) (any : Nat) : ¬evaluator.TurnsBack start any := by
  by_cases early : any ≤ hops
  · exact follows.straight any early
  · rintro ⟨site, reached, -⟩
    rw [← follows.siteAfter_next] at ended
    rw [siteAfter_eq_none ended (by omega)] at reached
    cases reached

theorem run_dereference {node : Node} {use : NameUse} (state : Progress)
    (named : evaluator.graph.nameUse? node = .ok (some use)) :
    evaluator.run infer (evaluator.graph.dereference node) state =
      evaluator.run infer (evaluator.graph.followAliases node.id use.isInclusive
        evaluator.graph.size [node.id] node.id use) state := by
  rw [Graph.dereference, named]
  rfl

/-- What a name stands for, when nothing on the chain of its aliases fails to be read. The chain is
followed to its end or to the first use that turns back, in no more hops than the graph has
nodes. -/
theorem dereference_follows (keyed : evaluator.graph.Keyed)
    (given : evaluator.graph.Backed evaluator.givenScopes) (start : UseSite)
    (stored : evaluator.graph.Stored start.node)
    (backed : evaluator.graph.Backed start.state.scopes) (infer : Node → Progress → Outcome Ty) :
    (evaluator.graph.isUseRead start.node → evaluator.graph.usedName? start.node = none →
      evaluator.run infer (evaluator.graph.dereference start.node) start.state =
        (.ok (.item (.undefined start.node.id)), start.state)) ∧
    (evaluator.graph.usedName? start.node = some start.use →
      (∀ hops site, evaluator.siteAfter start hops = some site →
        (∀ earlier ≤ hops, ¬evaluator.TurnsBack start earlier) → evaluator.isLegible site) →
      ∃ hops last, hops ≤ evaluator.graph.size ∧ evaluator.siteAfter start hops = some last ∧
        (∀ earlier < hops, ¬evaluator.TurnsBack start earlier) ∧
        (evaluator.TurnsBack start hops ∧
            evaluator.run infer (evaluator.graph.dereference start.node) start.state =
              (.ok .recursive, last.state) ∨
          (∀ any, ¬evaluator.TurnsBack start any) ∧
            evaluator.siteAfter start (hops + 1) = none ∧
            ∃ item? after, evaluator.bindingAt last = (.ok item?, after) ∧
              evaluator.run infer (evaluator.graph.dereference start.node) start.state =
                (.ok (.item (item?.getD (.undefined start.node.id))), after))) := by
  constructor
  · intro isRead unnamed
    rw [Graph.dereference, Graph.nameUse?_eq_ok.mpr ⟨isRead, unnamed⟩]
    rfl
  · intro named legible
    have isStored := (Graph.Keyed.stored_iff keyed).mp stored
    have begun : evaluator.Follows start 0 [start.node.id] start :=
      .begin (by simp [isStored]) backed
    have concludes := @run_followAliases evaluator infer keyed given start start
      (fun follows => legible _ _ follows.reached follows.straight) _ 0 _ begun (Nat.zero_add _)
    rw [← run_dereference start.state (Graph.nameUse?_eq_some.mpr named)] at concludes
    generalize evaluator.run infer (evaluator.graph.dereference start.node) start.state = outcome
      at concludes ⊢
    cases concludes with
    | @turned hops visited last next follows isAlias turns =>
        have reached := follows.siteAfter_next.trans isAlias
        exact ⟨hops + 1, next, follows.short, reached,
          fun earlier bound => follows.straight earlier (by omega), Or.inl ⟨turns, rfl⟩⟩
    | @ended hops visited last item? after follows isAlias found =>
        have noNext := follows.siteAfter_next.trans isAlias
        exact ⟨hops, last, Nat.le_of_lt follows.short, follows.reached,
          fun earlier bound => follows.straight earlier (by omega),
          Or.inr ⟨follows.never_turnsBack isAlias, noNext, item?, after, found, rfl⟩⟩

end Evaluator

/-- The formula `let a = b, b = a, c = [d = @c] in a`. -/
def aliasSample : Graph :=
  (show Build NodeId from do
    let first ← Builder.identifierExpression "b"
    let second ← Builder.identifierExpression "a"
    let inner ← Builder.inclusiveIdentifierExpression "c"
    let record ← Builder.recordExpression [("d", inner)]
    let body ← Builder.identifierExpression "a"
    Builder.letExpression [("a", first), ("b", second), ("c", record)] body).run .empty |>.2.graph

def aliasEvaluator : Evaluator :=
  { graph := aliasSample, maxDepth := 512, givenTypes := ∅, givenScopes := ∅ }

def plainStart : UseSite :=
  { node := .ast ⟨17, .identifierExpression, some Slot.letBody, .none⟩
    use := ⟨"a", false⟩
    state := .initial .never }

def inclusiveStart : UseSite :=
  { node := .ast ⟨7, .identifierExpression, some Slot.pairValue, .none⟩
    use := ⟨"c", true⟩
    state := .initial .never }

/-- From `a` the chain goes on to `b` and back to the value of `a`. From `@c` it ends at once, where
nothing is bound as `c`. -/
theorem aliasSample_follows : aliasEvaluator.graph.ShapeCorrect ∧
    (aliasEvaluator.run aliasEvaluator.inferNode
      (aliasEvaluator.graph.dereference plainStart.node) plainStart.state).1 = .ok .recursive ∧
    (aliasEvaluator.run aliasEvaluator.inferNode
      (aliasEvaluator.graph.dereference inclusiveStart.node) inclusiveStart.state).1 =
        .ok (.item (.keyValuePair "c" 24 (some 15) true)) := by
  have shape : aliasEvaluator.graph.ShapeCorrect := by decide +kernel
  refine ⟨shape, ?_, ?_⟩
  · have stored : aliasEvaluator.graph.node? 17 = some plainStart.node := by decide +kernel
    have named : aliasEvaluator.graph.usedName? plainStart.node = some plainStart.use := by
      decide +kernel
    have atFirst : ((aliasEvaluator.siteAfter plainStart 1).map fun site => site.node.id) =
        some 2 := by decide +kernel
    have atThird : ((aliasEvaluator.siteAfter plainStart 3).map fun site => site.node.id) =
        some 2 := by decide +kernel
    have legible : ∀ hops < 3, (aliasEvaluator.siteAfter plainStart hops).all
        aliasEvaluator.isLegible := by decide +kernel
    have turns : aliasEvaluator.TurnsBack plainStart 3 := by
      obtain ⟨early, isEarly, earlyId⟩ := Option.map_eq_some_iff.mp atFirst
      obtain ⟨late, isLate, lateId⟩ := Option.map_eq_some_iff.mp atThird
      exact ⟨late, isLate, Or.inr ⟨1, by decide, early, isEarly, earlyId.trans lateId.symm⟩⟩
    obtain ⟨hops, last, -, -, -, outcome⟩ := (@Evaluator.dereference_follows aliasEvaluator
      shape.toTreeShaped.ownId Graph.backed_empty plainStart ⟨17, stored⟩ Graph.backed_empty
      aliasEvaluator.inferNode).2 named fun hops site reached straight => by
        by_cases early : hops < 3
        · have checked := legible hops early
          rw [reached] at checked
          exact checked
        · exact absurd turns (straight 3 (by omega))
    rcases outcome with ⟨-, recursive⟩ | ⟨never, -⟩
    · exact congrArg Prod.fst recursive
    · exact absurd turns (never 3)
  · have stored : aliasEvaluator.graph.node? 7 = some inclusiveStart.node := by decide +kernel
    have named : aliasEvaluator.graph.usedName? inclusiveStart.node = some inclusiveStart.use := by
      decide +kernel
    have legible : aliasEvaluator.isLegible inclusiveStart := by decide +kernel
    have noAlias : (aliasEvaluator.siteAfter inclusiveStart 1).isNone := by decide +kernel
    have bound : (aliasEvaluator.bindingAt inclusiveStart).1 =
        .ok (some (.keyValuePair "c" 24 (some 15) true)) := by decide +kernel
    have only : ∀ {hops : Nat} {site : UseSite},
        aliasEvaluator.siteAfter inclusiveStart hops = some site →
          hops = 0 ∧ site = inclusiveStart := by
      intro hops site reached
      cases hops with
      | zero => exact ⟨rfl, (Option.some.inj reached).symm⟩
      | succ hops =>
          have ended := Option.isNone_iff_eq_none.mp noAlias
          rw [Evaluator.siteAfter_eq_none ended (by omega)] at reached
          cases reached
    obtain ⟨hops, last, -, reached, -, outcome⟩ := (@Evaluator.dereference_follows aliasEvaluator
      shape.toTreeShaped.ownId Graph.backed_empty inclusiveStart ⟨7, stored⟩ Graph.backed_empty
      aliasEvaluator.inferNode).2 named fun hops site reached _ => by
        rw [(only reached).2]
        exact legible
    obtain ⟨rfl, rfl⟩ := only reached
    rcases outcome with ⟨⟨site, atStart, turns⟩, -⟩ | ⟨-, -, item?, after, found, ended⟩
    · obtain rfl := Option.some.inj atStart
      simp at turns
    · rw [found] at bound
      obtain rfl := Except.ok.inj bound
      exact congrArg Prod.fst ended

end FormulaInspection
