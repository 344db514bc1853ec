import FormulaInspection.Proofs.Decimal
import FormulaInspection.Proofs.ReadBack

/-!
The type of a postfix chain that a builder has made, whatever elements it has and however many: what
the elements take out of the type of the head, folded from left to right.
-/

namespace FormulaInspection

theorem Graph.exists_elements {graph : Graph} (keyed : graph.Keyed)
    {eliminations : List Elimination} {tail : List NodeId}
    (elements : List.Forall₂ graph.EliminatesAt eliminations tail) :
    ∃ steps : List (Node × Elimination), (steps.map (·.1)).map Node.id = tail ∧
      steps.map (·.2) = eliminations ∧
      (∀ node ∈ steps.map (·.1), graph.node? node.id = some node) ∧
      ∀ step ∈ steps, graph.Eliminates step.1 step.2 := by
  induction elements with
  | nil => exact ⟨[], by simp⟩
  | cons first _ ih =>
      obtain ⟨node, found, eliminates⟩ := first
      obtain ⟨steps, rfl, rfl, othersFound, othersEliminate⟩ := ih
      have own := keyed found
      subst own
      refine ⟨(node, _) :: steps, rfl, rfl, ?_, ?_⟩
      · exact List.forall_mem_cons.mpr ⟨found, othersFound⟩
      · exact List.forall_mem_cons.mpr ⟨eliminates, othersEliminate⟩

def Graph.SpellsIndex (graph : Graph) (id : NodeId) (index : Nat) : Prop :=
  ∃ node text, graph.node? id = some node ∧ node.literal? = some (.numeric, text) ∧
    Decimal.Spells text index ∧ index < 18446744073709551616

theorem Graph.literalIndex?_eq_some {graph : Graph} {id : NodeId} {index : Nat} :
    (graph.node? id).bind literalIndex? = some index ↔ graph.SpellsIndex id index := by
  rw [Option.bind_eq_some_iff]
  refine exists_congr fun node => ?_
  rw [exists_and_left]
  refine and_congr_right fun _ => ?_
  unfold literalIndex?
  split
  · rename_i text isLiteral
    rw [Decimal.ofText?_eq_some, and_comm]
    simp [isLiteral, Decimal.bound64]
  · rename_i notNumeric
    simp only [reduceCtorEq, false_iff, not_exists, not_and]
    exact fun text isLiteral => absurd isLiteral (notNumeric text)

namespace Builder

/-- What the node of a call takes out, if it is an element of a chain. The index of an item is known
when the node that was given for it spells one. -/
inductive Call.TakesOut (graph : Graph) : Call → Elimination → Prop
  | call {arguments} : TakesOut graph (.invoke arguments) .call
  | field {name isOptional} :
      TakesOut graph (.fieldSelector name isOptional) (.field name isOptional)
  | fields {names isOptional} :
      TakesOut graph (.fieldProjection names isOptional) (.fields names isOptional)
  | item {content index? isOptional} :
      (∀ index, index? = some index ↔ graph.SpellsIndex content index) →
      TakesOut graph (.itemAccess content isOptional) (.item index? isOptional)

theorem Moment.Undisturbed.eliminatesAt {moment : Moment} (undisturbed : moment.Undisturbed)
    {elimination : Elimination} (takes : moment.call.TakesOut moment.graph elimination) :
    moment.graph.EliminatesAt elimination moment.id := by
  generalize isCall : moment.call = call at takes
  cases takes with
  | call => exact undisturbed.holds isCall (invoke_makes _)
  | field => exact (undisturbed.holds isCall (fieldSelector_makes _ _)).1
  | fields => exact undisturbed.holds isCall (fieldProjection_makes _ _)
  | @item content index? isOptional spelled =>
      have read : (moment.graph.node? content).bind literalIndex? = index? :=
        Option.ext fun index => Graph.literalIndex?_eq_some.trans (spelled index).symm
      rw [← read]
      exact undisturbed.holds isCall (itemAccess_makes content isOptional)

def Moment.Eliminates (moment : Moment) (elimination : Elimination) (element : NodeId) : Prop :=
  ∃ other : Moment, other.calls = moment.calls ∧ other.Undisturbed ∧
    other.call.TakesOut moment.graph elimination ∧ other.id = element

theorem Moment.Eliminates.eliminatesAt {moment : Moment} {elimination : Elimination}
    {element : NodeId} (eliminates : moment.Eliminates elimination element) :
    moment.graph.EliminatesAt elimination element := by
  obtain ⟨other, sameCalls, undisturbed, takes, rfl⟩ := eliminates
  have sameGraph : other.graph = moment.graph := by rw [Moment.graph, sameCalls, Moment.graph]
  rw [← sameGraph] at takes ⊢
  exact undisturbed.eliminatesAt takes

/-- Where only the type of the head is known, a chain has the type that its elements take out of it
one after the other, and every element that of the elements up to it. -/
theorem inferType_chain {moment : Moment} (undisturbed : moment.Undisturbed) {head : NodeId}
    {tail : List NodeId} (isCall : moment.call = .recursivePrimary head tail)
    {eliminations : List Elimination} (elements : List.Forall₂ moment.Eliminates eliminations tail)
    {cache : InspectionCache} {ty : Ty} (known : cache.types[head]? = some ty)
    (unknown : ∀ id ∈ moment.id :: tail, id ∉ cache.types) {maxDepth : Nat}
    (room : tail.length < maxDepth) :
    (inferType moment.graph moment.id maxDepth cache .never).answer =
      .ok (eliminations.foldl Ty.eliminate ty) ∧
    ∀ (index : Nat) (element : NodeId), tail[index]? = some element →
      (inferType moment.graph element maxDepth cache .never).answer =
        .ok ((eliminations.take (index + 1)).foldl Ty.eliminate ty) := by
  have distinct := undisturbed.distinct
  rw [isCall] at distinct
  obtain ⟨chain, headNode, wrapper, chainId, rfl, isChain⟩ :=
    undisturbed.holds isCall (recursivePrimary_makes head tail)
  obtain ⟨steps, rfl, rfl, found, eliminates⟩ := Graph.exists_elements moment.keyed
    (elements.imp fun _ _ => Moment.Eliminates.eliminatesAt)
  replace isChain := isChain _ rfl (List.nodup_cons.mp distinct).2 found
  rw [← chainId] at unknown ⊢
  simp only [List.length_map] at room
  constructor
  · refine isChain.inferType_whole eliminates known ?_ room
    exact fun node member => unknown _ (List.mem_map_of_mem member)
  · intro index element isElement
    rw [List.map_map, List.getElem?_map, Option.map_eq_some_iff] at isElement
    obtain ⟨step, isStep, rfl⟩ := isElement
    obtain ⟨bounded, rfl⟩ := List.getElem?_eq_some_iff.mp isStep
    have arranged : steps.map (·.1) =
        (steps.take (index + 1)).map (·.1) ++ (steps.drop (index + 1)).map (·.1) := by
      rw [← List.map_append, List.take_append_drop]
    have last : ((steps.take (index + 1)).map (·.1)).getLast? = some (steps[index]).1 := by
      rw [List.take_succ_eq_append_getElem bounded, List.map_append]
      exact List.getLast?_concat
    rw [← List.map_take]
    refine isChain.inferType_last arranged last ?_ known ?_ (by simp; omega)
    · exact fun step member => eliminates step (List.mem_of_mem_take member)
    · intro node member
      rw [List.map_take] at member
      exact unknown _ (List.mem_cons_of_mem _ (List.mem_map_of_mem (List.mem_of_mem_take member)))

/-- The expression `(f(1)[a]{01}?[[c], [b]])`. -/
def chainSample : Moment where
  before :=
    [.identifierExpression "f", .numericLiteral "1", .invoke [3], .fieldSelector "a" false,
      .numericLiteral "01", .itemAccess 13 true, .fieldProjection ["c", "b"] false]
  call := .recursivePrimary 2 [8, 12, 17, 32]
  later := [.parenthesized 34]

def chainSampleHead : Ty :=
  .function [] (.record [("a", .list [.of .number,
    .table [("b", .of .number), ("c", .of .text), ("d", .of .date)] false false, .of .text] false)]
    false false) false

def chainSampleCache : InspectionCache :=
  { types := (∅ : IdMap Ty).insert 2 chainSampleHead, scopes := ∅ }

theorem chainSample_folds : chainSample.Undisturbed ∧ chainSample.graph.SpellsIndex 13 1 ∧
    (inferType chainSample.graph 34 5 chainSampleCache .never).answer =
      .ok (.table [("c", .of .text), ("b", .of .number)] false false) ∧
    (inferType chainSample.graph 17 5 chainSampleCache .never).answer =
      .ok (.table [("b", .of .number), ("c", .of .text), ("d", .of .date)] false true) := by
  have undisturbed : chainSample.Undisturbed :=
    ⟨by decide +kernel, by decide +kernel, by decide +kernel⟩
  have call : chainSample.Eliminates .call 8 :=
    ⟨⟨chainSample.calls.take 2, .invoke [3], chainSample.calls.drop 3⟩, rfl,
      ⟨by decide +kernel, by decide +kernel, by decide +kernel⟩, .call, by decide +kernel⟩
  have field : chainSample.Eliminates (.field "a" false) 12 :=
    ⟨⟨chainSample.calls.take 3, .fieldSelector "a" false, chainSample.calls.drop 4⟩, rfl,
      ⟨by decide +kernel, by decide +kernel, by decide +kernel⟩, .field, by decide +kernel⟩
  have index : (chainSample.graph.node? 13).bind literalIndex? = some 1 := by decide +kernel
  have item : chainSample.Eliminates (.item (some 1) true) 17 :=
    ⟨⟨chainSample.calls.take 5, .itemAccess 13 true, chainSample.calls.drop 6⟩, rfl,
      ⟨by decide +kernel, by decide +kernel, by decide +kernel⟩,
      .item fun _ => by rw [← index, Graph.literalIndex?_eq_some], by decide +kernel⟩
  have fields : chainSample.Eliminates (.fields ["c", "b"] false) 32 :=
    ⟨⟨chainSample.calls.take 6, .fieldProjection ["c", "b"] false, chainSample.calls.drop 7⟩, rfl,
      ⟨by decide +kernel, by decide +kernel, by decide +kernel⟩, .fields, by decide +kernel⟩
  have isChain : chainSample.id = 34 := by decide +kernel
  have unknown : ∀ id ∈ chainSample.id :: [8, 12, 17, 32], id ∉ chainSampleCache.types := by
    decide +kernel
  obtain ⟨whole, parts⟩ := inferType_chain undisturbed rfl (.cons call (.cons field (.cons item
    (.cons fields .nil)))) (rfl : chainSampleCache.types[2]? = some chainSampleHead) unknown
      (by decide : 4 < 5)
  rw [isChain] at whole
  exact ⟨undisturbed, Graph.literalIndex?_eq_some.mp index, whole, parts 2 17 rfl⟩

end Builder

end FormulaInspection
