import FormulaInspection.Graph.Builder
import FormulaInspection.Proofs.ScopeCache
import FormulaInspection.Proofs.ShapeCheck

/-!
Records that give a key more than once. The type of the record and the scopes of its values both go
by the last pair of a key, although each finds it in its own way: the one writes fields from left to
right, the other binds siblings for every value anew.
-/

namespace FormulaInspection

def KeyValuePair.fieldType (types : IdMap Ty) (pair : KeyValuePair) : Ty :=
  match pair.value? with
  | some value => types[value.id]?.getD .unknown
  | none => .unknown

namespace Evaluator

variable {evaluator : Evaluator}

theorem run_pairFields (levels : Nat) {state : Progress} (never : state.cancellation = .never)
    {pairs : List KeyValuePair} (fields : List (String × Ty))
    (known : ∀ pair ∈ pairs, ∀ value, pair.value? = some value →
      evaluator.knownType? state value.id = some (pair.fieldType evaluator.givenTypes)) :
    evaluator.run (evaluator.inferWithin levels) (Graph.pairFields fields pairs) state =
      (.ok (NameMap.setAll fields
        (pairs.map fun pair => (pair.key, pair.fieldType evaluator.givenTypes))), state) := by
  induction pairs generalizing fields with
  | nil => rfl
  | cons pair rest ih =>
      have restKnown := fun other (member : other ∈ rest) => known other (List.mem_cons_of_mem _ member)
      unfold Graph.pairFields
      cases hasValue : pair.value? with
      | none =>
          have unwritten : pair.fieldType evaluator.givenTypes = .unknown := by
            simp [KeyValuePair.fieldType, hasValue]
          simp only [List.map_cons, NameMap.setAll_cons, unwritten]
          exact ih _ restKnown
      | some value =>
          have polled : state.cancellation.poll = .ok .never := by rw [never]; rfl
          have unchanged : state.polled .never = state := by
            rw [Progress.polled, ← never]
          have answered := @inferWithin_known evaluator value state .never levels _ polled
            (known pair (by simp) value hasValue)
          rw [unchanged] at answered
          simp only [List.map_cons, NameMap.setAll_cons]
          change evaluator.run _ (.typeOf value _) state = _
          rw [run_typeOf, answered]
          exact ih _ restKnown

end Evaluator

theorem Graph.typingRule_record (graph : Graph) {record : Node}
    (kind : record.kind = .recordExpression ∨ record.kind = .recordLiteral) :
    graph.typingRule record = graph.recordType record := by
  unfold typingRule
  rcases kind with kind | kind <;> rw [kind]

theorem inferType_record {graph : Graph} {record : Node} {pairs : List KeyValuePair}
    {cache : InspectionCache} {levels : Nat} (found : graph.node record.id = .ok record)
    (kind : record.kind = .recordExpression ∨ record.kind = .recordLiteral)
    (listed : graph.recordPairs record = .ok pairs) (unknown : record.id ∉ cache.types)
    (known : ∀ pair ∈ pairs, ∀ value, pair.value? = some value → value.id ∈ cache.types) :
    (inferType graph record.id (levels + 1) cache .never).answer =
      .ok (.record (NameMap.ofPairs
        (pairs.map fun pair => (pair.key, pair.fieldType cache.types))) false false) := by
  let evaluator : Evaluator := ⟨graph, levels + 1, cache.types, cache.scopes⟩
  let inside := (Progress.initial .never).enter record.id
  have valuesKnown : ∀ pair ∈ pairs, ∀ value, pair.value? = some value →
      evaluator.knownType? inside value.id = some (pair.fieldType cache.types) := by
    intro pair member value hasValue
    have assigned := known pair member value hasValue
    rw [Std.ExtTreeMap.mem_iff_isSome_getElem?] at assigned
    obtain ⟨ty, present⟩ := Option.isSome_iff_exists.mp assigned
    simp [evaluator, inside, Evaluator.knownType?, Progress.enter, Progress.initial,
      KeyValuePair.fieldType, hasValue, present]
  have fieldsFound := @Evaluator.run_pairFields evaluator levels inside rfl pairs [] valuesKnown
  have ran : evaluator.run (evaluator.inferWithin levels) (graph.typingRule record) inside =
      (.ok (.record (NameMap.ofPairs
        (pairs.map fun pair => (pair.key, pair.fieldType cache.types))) false false), inside) := by
    rw [graph.typingRule_record kind, Graph.recordType, listed]
    change evaluator.run _ (Graph.pairFields [] pairs >>= _) inside = _
    rw [Evaluator.run_bind, fieldsFound]
    rfl
  have absent : evaluator.knownType? (.initial .never) record.id = none := by
    simp [evaluator, Evaluator.knownType?, Progress.initial, Std.ExtTreeMap.getElem?_eq_none unknown]
  have entered := @Evaluator.inferWithin_entered evaluator record (.initial .never) .never levels _ _
    rfl absent (by simp [Progress.initial]) ran
  rw [inferType_answer found, entered, Progress.leave_ok]

def KeyValuePair.IsLast (pair : KeyValuePair) (pairs : List KeyValuePair) : Prop :=
  ∃ before after, pairs = before ++ pair :: after ∧ ∀ other ∈ after, other.key ≠ pair.key

theorem KeyValuePair.IsLast.get?_setAll {α : Type} {pair : KeyValuePair}
    {pairs : List KeyValuePair} (isLast : pair.IsLast pairs) (update : KeyValuePair → String × α)
    (own : (update pair).1 = pair.key)
    (others : ∀ other, other.key ≠ pair.key → (update other).1 ≠ pair.key)
    (entries : List (String × α)) :
    NameMap.get? (NameMap.setAll entries (pairs.map update)) pair.key = some (update pair).2 := by
  obtain ⟨before, after, rfl, different⟩ := isLast
  have later : pair.key ∉ NameMap.names (after.map update) := by
    intro member
    simp only [NameMap.names, List.map_map, List.mem_map] at member
    obtain ⟨other, inAfter, same⟩ := member
    exact others other (different other inAfter) same
  have updated : update pair = (pair.key, (update pair).2) := by rw [← own]
  rw [List.map_append, List.map_cons, updated]
  exact NameMap.get?_setAll_last later

/-- What a value sees under the key of other pairs, unless the key is spelt like an own reference. -/
theorem KeyValuePair.IsLast.get?_beside {last pair : KeyValuePair} {pairs : List KeyValuePair}
    (isLast : last.IsLast pairs) (different : pair.key ≠ last.key)
    (plain : ∀ name, last.key ≠ "@" ++ name) (own : ScopeItem) (item : KeyValuePair → ScopeItem)
    (scope : Scope) :
    NameMap.get? (NameMap.setAll scope (pairs.map fun other =>
      if other.key = pair.key then ("@" ++ pair.key, own) else (other.key, item other))) last.key =
        some (item last) := by
  have lastSeen : (if last.key = pair.key then ("@" ++ pair.key, own) else (last.key, item last)) =
      (last.key, item last) := if_neg (Ne.symm different)
  have found := isLast.get?_setAll
    (fun other => if other.key = pair.key then ("@" ++ pair.key, own) else (other.key, item other))
    (by rw [lastSeen]) ?_ scope
  · rwa [lastSeen] at found
  · intro other otherKey
    by_cases same : other.key = pair.key
    · simpa [same] using Ne.symm (plain pair.key)
    · simpa [same] using otherKey

/-- Both passes over a record agree on which of the pairs with one key counts: the last one. -/
theorem repeatedKeys_agree {graph : Graph} (tree : graph.TreeShaped) {record : Node}
    (stored : graph.Stored record)
    (kind : record.kind = .recordExpression ∨ record.kind = .recordLiteral)
    {pairs : List KeyValuePair} (listed : graph.recordPairs record = .ok pairs)
    {cache : InspectionCache} (unknown : record.id ∉ cache.types)
    (known : ∀ pair ∈ pairs, ∀ value, pair.value? = some value → value.id ∈ cache.types)
    {maxDepth : Nat} (positive : 0 < maxDepth) {last : KeyValuePair} (isLast : last.IsLast pairs)
    (plain : ∀ name, last.key ≠ "@" ++ name) :
    (∃ fields,
      (inferType graph record.id maxDepth cache .never).answer = .ok (.record fields false false) ∧
      NameMap.names fields = (pairs.map KeyValuePair.key).eraseDups ∧
      (∀ value, last.value? = some value →
        NameMap.get? fields last.key = cache.types[value.id]?) ∧
      (last.value? = none → NameMap.get? fields last.key = some .unknown)) ∧
    ∀ pair ∈ pairs, pair.key ≠ last.key → ∀ value, pair.value? = some value →
      ∀ cancellation scopes, (resolveScope graph value.id none cancellation).1 = .ok scopes →
        ∃ scope, scopes[value.id]? = some scope ∧
          NameMap.get? scope last.key =
            some (.keyValuePair last.key last.keyNode.id (last.value?.map Node.id) false) := by
  constructor
  · obtain ⟨levels, rfl⟩ := Nat.exists_eq_add_one.mpr positive
    have found := Graph.node_eq_ok.mpr (tree.stored_iff.mp stored)
    have inferred := @inferType_record graph record pairs cache levels found kind listed unknown
      known
    have field := isLast.get?_setAll (fun pair => (pair.key, pair.fieldType cache.types)) rfl
      (fun other different => different) []
    refine ⟨_, inferred, ?_, ?_, ?_⟩
    · rw [NameMap.names_ofPairs]
      simp [NameMap.names, Function.comp_def]
    · intro value hasValue
      have inPairs : last ∈ pairs := by
        obtain ⟨before, rest, rfl, _⟩ := isLast
        simp
      have assigned := known last inPairs value hasValue
      rw [Std.ExtTreeMap.mem_iff_isSome_getElem?] at assigned
      obtain ⟨ty, present⟩ := Option.isSome_iff_exists.mp assigned
      rw [NameMap.ofPairs, field]
      simp [KeyValuePair.fieldType, hasValue, present]
    · intro noValue
      rw [NameMap.ofPairs, field]
      simp [KeyValuePair.fieldType, noValue]
  · intro pair member different value hasValue cancellation scopes resolved
    have owned : graph.ownedPairs record = .ok pairs := by
      unfold Graph.ownedPairs
      rcases kind with kind | kind <;> rw [kind] <;> exact listed
    have asPair : record.kind.pairItem = .keyValuePair := by
      rcases kind with kind | kind <;> rw [kind] <;> rfl
    have facts := resolveScope_faithful tree (by simp) resolved
    have lexical := tree.lexicalScope_lexical.bound (.pairValue stored owned member hasValue)
    refine ⟨_, facts.scope facts.known, ?_⟩
    rw [lexical, isLast.get?_beside different plain, asPair]

/-- The beginning `[a = 1, b = c, a = "t", b =` of a record. -/
def repeatedSample : Graph :=
  (show Build NodeId from do
    let one ← Builder.numericLiteral "1"
    let c ← Builder.identifierExpression "c"
    let text ← Builder.textLiteral "t"
    let finished ← Builder.recordPairs .generalizedIdentifierPairedExpression
      [("a", one), ("b", c), ("a", text)]
    let key ← Builder.generalizedIdentifier "b"
    let begun ← Builder.context .generalizedIdentifierPairedExpression [(Slot.pairKey, key)]
    let content ← Builder.csvArray (finished ++ [begun])
    Builder.context .recordExpression [(Slot.wrappedContent, content)]).run .empty |>.2.graph

def repeatedCache : InspectionCache :=
  { types := (∅ : IdMap Ty).insert 1 (.of .number) |>.insert 3 (.of .date) |>.insert 4 (.of .text)
    scopes := ∅ }

theorem repeatedSample_agrees :
    (∃ fields,
      (inferType repeatedSample 24 512 repeatedCache .never).answer =
        .ok (.record fields false false) ∧
      NameMap.names fields = ["a", "b"] ∧ NameMap.get? fields "a" = some (.of .text)) ∧
    ∃ scopes scope keyNode, (resolveScope repeatedSample 3 none .never).1 = .ok scopes ∧
      scopes[3]? = some scope ∧
      NameMap.get? scope "a" = some (.keyValuePair "a" keyNode (some 4) false) := by
  have record : repeatedSample.node? 24 = some (.context ⟨24, .recordExpression, none⟩) := by
    decide +kernel
  have read : (repeatedSample.recordPairs (.context ⟨24, .recordExpression, none⟩)).map
      (List.map fun pair => (pair.key, pair.value?.map Node.id)) =
        .ok [("a", some 1), ("b", some 3), ("a", some 4), ("b", none)] := by decide +kernel
  have resolves : (resolveScope repeatedSample 3 none .never).1.isOk := by decide +kernel
  cases listed : repeatedSample.recordPairs (.context ⟨24, .recordExpression, none⟩) with
  | error failure => simp [listed, Except.map] at read
  | ok pairs =>
      simp only [listed, Except.map, Except.ok.injEq, List.map_eq_cons_iff, List.map_eq_nil_iff,
        Prod.mk.injEq, Option.map_eq_some_iff] at read
      obtain ⟨first, _, rfl, ⟨firstKey, one, firstValue, oneId⟩, second, _, rfl,
        ⟨secondKey, c, secondValue, cId⟩, third, _, rfl, ⟨thirdKey, text, thirdValue, textId⟩,
        fourth, _, rfl, ⟨fourthKey, fourthValue⟩, rfl⟩ := read
      have known : ∀ pair ∈ [first, second, third, fourth], ∀ value, pair.value? = some value →
          value.id ∈ repeatedCache.types := by
        intro pair member value hasValue
        have ids : value.id = 1 ∨ value.id = 3 ∨ value.id = 4 := by
          simp only [List.mem_cons, List.not_mem_nil, or_false] at member
          rcases member with rfl | rfl | rfl | rfl <;> simp_all
        rcases ids with same | same | same <;> rw [same] <;> decide
      have isLast : third.IsLast [first, second, third, fourth] :=
        ⟨[first, second], [fourth], rfl, by simp [thirdKey, fourthKey]⟩
      have plain : ∀ name, third.key ≠ "@" ++ name := by
        intro name same
        have spelt := congrArg String.toList (thirdKey.symm.trans same)
        simp at spelt
      obtain ⟨⟨fields, inferred, names, present, _⟩, bound⟩ :=
        @repeatedKeys_agree repeatedSample (by decide +kernel) _ ⟨24, record⟩ (Or.inl rfl) _ listed
          repeatedCache (by decide) known 512 (by decide) third isLast plain
      refine ⟨⟨fields, inferred, ?_, ?_⟩, ?_⟩
      · rw [names]
        simp only [List.map_cons, List.map_nil, firstKey, secondKey, thirdKey, fourthKey]
        decide
      · rw [← thirdKey, present text thirdValue, textId]
        simp [repeatedCache]
      · cases resolved : (resolveScope repeatedSample 3 none .never).1 with
        | error failure => simp [resolved, Except.isOk, Except.toBool] at resolves
        | ok scopes =>
            rw [← cId] at resolved ⊢
            obtain ⟨scope, atValue, item⟩ := bound second (by simp) (by simp [secondKey, thirdKey]) c
              secondValue .never scopes resolved
            refine ⟨scopes, scope, third.keyNode.id, rfl, atValue, ?_⟩
            rw [thirdValue, thirdKey] at item
            simpa [textId] using item

end FormulaInspection
