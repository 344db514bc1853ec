import FormulaInspection.Graph.Builder
import FormulaInspection.Scope.Position
import FormulaInspection.Scope.Resolver

/-!
What the filter by position leaves. Each node of the path cuts its scope down from what the nodes
before it have left, so a path may come to a node more than once. In the end an id has lost the
items that some node of the path hides there, whichever way the path is ordered.
-/

namespace FormulaInspection

variable {graph : Graph} {scopes : Scopes} {path : List Node}

/-- Whether a node hides an item at an id: the node has the id and stands in a body slot, and the
item is the `_` of its parent. -/
def hiddenAt (graph : Graph) (node : Node) (id : NodeId) (item : ScopeItem) : Bool :=
  node.id == id && node.slot == some Slot.eachBody && (graph.parentId? id).any (item == .each ·)

def hiddenAlong (graph : Graph) (path : List Node) (id : NodeId) (item : ScopeItem) : Bool :=
  path.any fun node => hiddenAt graph node id item

def filteredAlong (graph : Graph) (path : List Node) (scopes : Scopes) : Scopes :=
  scopes.map fun id scope => scope.filter fun entry => !hiddenAlong graph path id entry.2

theorem filteredAlong_nil : filteredAlong graph [] scopes = scopes := by
  have kept : ∀ scope : Scope, scope.filter (fun _ => true) = scope :=
    fun scope => List.filter_eq_self.mpr fun _ _ => rfl
  simp [filteredAlong, hiddenAlong, kept]

theorem filteredAlong_congr {other : List Node} (same : ∀ node, node ∈ path ↔ node ∈ other) :
    filteredAlong graph path scopes = filteredAlong graph other scopes := by
  have hidden : ∀ id item, hiddenAlong graph path id item = hiddenAlong graph other id item := by
    intro id item
    rw [Bool.eq_iff_iff, hiddenAlong, hiddenAlong, List.any_eq_true, List.any_eq_true]
    simp only [same]
  simp only [filteredAlong, hidden]

theorem filteredAlong_twice :
    filteredAlong graph path (filteredAlong graph path scopes) =
      filteredAlong graph path scopes := by
  simp [filteredAlong, List.filter_filter]

theorem visibleAt_eq (node : Node) (scope : Scope) :
    visibleAt graph node scope =
      scope.filter fun entry => !hiddenAt graph node node.id entry.2 := by
  unfold visibleAt
  by_cases inBody : node.slot = some Slot.eachBody
  · rw [if_pos inBody]
    cases parent? : graph.parentId? node.id with
    | none => exact (List.filter_eq_self.mpr (by simp [hiddenAt, parent?])).symm
    | some parent => simp [inBody, hiddenAt, parent?, bne]
  · rw [if_neg inBody]
    exact (List.filter_eq_self.mpr (by simp [hiddenAt, inBody])).symm

theorem filteredAlong_insert {node : Node} {scope : Scope} (rest : List Node)
    (found : scopes[node.id]? = some scope) :
    filteredAlong graph rest (scopes.insert node.id (visibleAt graph node scope)) =
      filteredAlong graph (node :: rest) scopes := by
  apply Std.ExtTreeMap.ext_getElem?
  intro id
  rw [filteredAlong, filteredAlong, Std.ExtTreeMap.getElem?_map, Std.ExtTreeMap.getElem?_map]
  by_cases here : node.id = id
  · subst here
    rw [Std.ExtTreeMap.getElem?_insert_self, found, visibleAt_eq]
    simp only [Option.map_some, List.filter_filter, hiddenAlong, List.any_cons, Bool.not_or,
      Bool.and_comm]
  · have shown : ∀ item, hiddenAt graph node id item = false := by
      intro item
      simp [hiddenAt, here]
    rw [Std.ExtTreeMap.getElem?_insert, if_neg (by simpa using here)]
    simp only [hiddenAlong, List.any_cons, shown, Bool.false_or]

theorem contains_insert_visible {node : Node} {scope : Scope}
    (found : scopes[node.id]? = some scope) (id : NodeId) :
    (scopes.insert node.id (visibleAt graph node scope)).contains id = scopes.contains id := by
  rw [Std.ExtTreeMap.contains_insert]
  by_cases here : node.id = id
  · subst here
    simp [Std.ExtTreeMap.contains_eq_isSome_getElem?, found]
  · simp [here]

theorem filterByPosition_eq (known : ∀ node ∈ path, scopes.contains node.id) :
    filterByPosition graph scopes path = .ok (filteredAlong graph path scopes) := by
  induction path generalizing scopes with
  | nil => rw [filterByPosition, filteredAlong_nil]
  | cons node rest ih =>
      have present := known node List.mem_cons_self
      rw [Std.ExtTreeMap.contains_eq_isSome_getElem?] at present
      obtain ⟨scope, found⟩ := Option.isSome_iff_exists.mp present
      rw [filterByPosition, found]
      simp only
      rw [ih, filteredAlong_insert rest found]
      intro other member
      rw [contains_insert_visible found]
      exact known other (List.mem_cons_of_mem _ member)

theorem filterByPosition_missing {node : Node}
    (first : path.find? (fun node => !scopes.contains node.id) = some node) :
    filterByPosition graph scopes path = .error (.missingScope node.id) := by
  induction path generalizing scopes with
  | nil => simp at first
  | cons head rest ih =>
      rw [filterByPosition]
      cases found : scopes[head.id]? with
      | none =>
          have missing : scopes.contains head.id = false := by
            simp [Std.ExtTreeMap.contains_eq_isSome_getElem?, found]
          rw [List.find?_cons_of_pos (by simp [missing]), Option.some.injEq] at first
          rw [first]
      | some scope =>
          have present : scopes.contains head.id = true := by
            simp [Std.ExtTreeMap.contains_eq_isSome_getElem?, found]
          rw [List.find?_cons_of_neg (by simp [present])] at first
          apply ih
          simp only [contains_insert_visible found]
          exact first

theorem filterByPosition_isOk_iff :
    (∃ filtered, filterByPosition graph scopes path = .ok filtered) ↔
      ∀ node ∈ path, node.id ∈ scopes := by
  constructor
  · rintro ⟨filtered, passed⟩ node member
    cases first : path.find? (fun node => !scopes.contains node.id) with
    | some missing => simp [filterByPosition_missing first] at passed
    | none => simpa using List.find?_eq_none.mp first node member
  · intro known
    exact ⟨_, filterByPosition_eq fun node member =>
      Std.ExtTreeMap.contains_iff_mem.mpr (known node member)⟩

/-- Filtering along a path fails exactly where a node of the path has no scope, and names the first
such node. Otherwise every id keeps its scope, less the items that the path hides there. So the
order of the path does not count, nor how often it comes to a node, and to filter twice is to filter
once. -/
theorem filterByPosition_hides (graph : Graph) (scopes : Scopes) (path : List Node) :
    (∀ node, path.find? (fun node => !scopes.contains node.id) = some node →
      filterByPosition graph scopes path = .error (.missingScope node.id)) ∧
    ((∀ node ∈ path, scopes.contains node.id) →
      ∃ result, filterByPosition graph scopes path = .ok result ∧
        (∀ id : NodeId, result[id]? =
          scopes[id]?.map (List.filter fun entry => !hiddenAlong graph path id entry.2)) ∧
        (∀ other : List Node, (∀ node, node ∈ path ↔ node ∈ other) →
          filterByPosition graph scopes other = .ok result) ∧
        filterByPosition graph result path = .ok result) := by
  refine ⟨fun node first => filterByPosition_missing first, fun known => ?_⟩
  refine ⟨filteredAlong graph path scopes, filterByPosition_eq known, ?_, ?_, ?_⟩
  · intro id
    exact Std.ExtTreeMap.getElem?_map
  · intro other same
    rw [filteredAlong_congr same]
    exact filterByPosition_eq fun node member => known node ((same node).mpr member)
  · have kept : ∀ node ∈ path, (filteredAlong graph path scopes).contains node.id := by
      intro node member
      rw [filteredAlong, Std.ExtTreeMap.contains_map]
      exact known node member
    rw [filterByPosition_eq kept, filteredAlong_twice]

/-- The formula `let x = 1 in each x`. -/
def eachSample : Graph :=
  (show Build NodeId from do
    let one ← Builder.numericLiteral "1"
    let x ← Builder.identifierExpression "x"
    let each ← Builder.eachExpression x
    Builder.letExpression [("x", one)] each).run .empty |>.2.graph

def eachScopes : Scopes :=
  (resolveScope eachSample 3 none .never).1.toOption.getD ∅

def eachPath : List Node :=
  (eachSample.ancestry 3).toOption.getD []

/-- At its body the `each` is hidden and `x` is not, along the path taken once or there and back; a
path that also leads to the value `1` fails there. -/
theorem eachSample_hides :
    (∃ result, filterByPosition eachSample eachScopes eachPath = .ok result ∧
      eachScopes[(3 : NodeId)]? =
        some [("x", .keyValuePair "x" 6 (some 1) false), ("_", .each 5)] ∧
      result[(3 : NodeId)]? = some [("x", .keyValuePair "x" 6 (some 1) false)] ∧
      filterByPosition eachSample eachScopes (eachPath ++ eachPath.reverse) = .ok result ∧
      filterByPosition eachSample result eachPath = .ok result) ∧
    ∃ value, eachSample.node? 1 = some value ∧
      filterByPosition eachSample eachScopes (eachPath ++ [value]) = .error (.missingScope 1) := by
  constructor
  · obtain ⟨result, filtered, left, anyOrder, again⟩ :=
      (filterByPosition_hides eachSample eachScopes eachPath).2 (by decide +kernel)
    refine ⟨result, filtered, by decide +kernel, ?_, anyOrder _ (by simp), again⟩
    rw [left]
    decide +kernel
  · let value : Node := .ast ⟨1, .literalExpression, some 2, .literal .numeric "1"⟩
    have first : (eachPath ++ [value]).find? (fun node => !eachScopes.contains node.id) =
        some value := by decide +kernel
    exact ⟨value, by decide +kernel, (filterByPosition_hides eachSample eachScopes _).1 _ first⟩

end FormulaInspection
