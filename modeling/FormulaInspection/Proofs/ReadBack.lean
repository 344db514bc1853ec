import FormulaInspection.Proofs.Calls

/-!
What a builder has written can be read back, whatever is built before and after it. The only
condition is that the nodes of the construct are not attached again.
-/

namespace FormulaInspection

namespace Builder

open FormulaInspection.Graph

structure Moment where
  before : List Call
  call : Call
  later : List Call

namespace Moment

variable {moment : Moment}

def calls (moment : Moment) : List Call :=
  moment.before ++ moment.call :: moment.later

def id (moment : Moment) : NodeId :=
  (moment.call.run (after moment.before)).1

def graph (moment : Moment) : Graph :=
  (after moment.calls).graph

/-- The call is given distinct nodes that exist, and no later call attaches one of them or a node
that was made inside the construct. -/
structure Undisturbed (moment : Moment) : Prop where
  stored : ∀ id ∈ moment.call.given, ((after moment.before).graph.node? id).isSome
  distinct : moment.call.given.Nodup
  spared : ∀ next ∈ moment.later, ∀ id ∈ next.given, id ∉ moment.call.given ∧
    ¬((after moment.before).lastId < id ∧ id < moment.id)

def Declares (moment : Moment) (declaration : String × Bool × Option (PrimitiveName × Bool))
    (parameter : NodeId) : Prop :=
  ∃ other : Moment, other.calls = moment.calls ∧ other.Undisturbed ∧
    other.call = .parameter declaration.1 declaration.2.1 declaration.2.2 ∧ other.id = parameter

end Moment

theorem exists_steps (calls : List Call) (steps : List Step) :
    ∃ more, calls.foldl (fun builder call => (call.run builder).2) (perform steps .empty) =
        perform (steps ++ more) .empty ∧
      ∀ step ∈ more, ∀ id : Nat, id ∈ step.passed →
        (∃ call ∈ calls, id ∈ call.given) ∨ steps.length < id := by
  induction calls generalizing steps with
  | nil => exact ⟨[], by simp, by simp⟩
  | cons call rest ih =>
      obtain ⟨first, performed, consumes⟩ := call.performs steps
      obtain ⟨others, performedRest, passes⟩ := ih (steps ++ first)
      refine ⟨first ++ others, ?_, ?_⟩
      · rw [List.foldl_cons, performed, performedRest, List.append_assoc]
      · intro step member id passed
        rcases List.mem_append.mp member with isFirst | isOther
        · obtain ⟨index, found⟩ := List.mem_iff_getElem?.mp isFirst
          rcases consumes.existing found passed with isGiven | isNew
          · exact .inl ⟨call, List.mem_cons_self, isGiven⟩
          · exact .inr isNew.1
        · rcases passes step isOther id passed with ⟨next, isNext, isGiven⟩ | isNew
          · exact .inl ⟨next, List.mem_cons_of_mem _ isNext, isGiven⟩
          · rw [List.length_append] at isNew
            exact .inr (by omega)

theorem after_performed (calls : List Call) : ∃ steps, after calls = perform steps .empty := by
  obtain ⟨steps, performed, -⟩ := exists_steps calls []
  exact ⟨steps, performed⟩

namespace Moment

theorem keyed (moment : Moment) : moment.graph.Keyed := by
  obtain ⟨steps, performed⟩ := after_performed moment.calls
  rw [Moment.graph, performed]
  exact (numbered_perform steps).own_id

theorem same_kind (moment : Moment) {id : Nat} {node final : Node}
    (found : (after moment.before).graph.node? id = some node)
    (foundFinal : moment.graph.node? id = some final) : final.kind = node.kind := by
  obtain ⟨earlier, performed⟩ := after_performed moment.before
  obtain ⟨more, performedMore, -⟩ := exists_steps (moment.call :: moment.later) earlier
  have whole : moment.graph = (perform (earlier ++ more) .empty).graph := by
    rw [← performedMore, ← performed]
    simp [Moment.graph, after, Moment.calls]
  rw [performed] at found
  rw [whole] at foundFinal
  obtain ⟨index, step, isStep, rfl⟩ := (numbered_perform earlier).maker found
  have isStepOfWhole : (earlier ++ more)[index]? = some step := by
    rw [List.getElem?_append_left (List.getElem?_eq_some_iff.mp isStep).1, isStep]
  obtain ⟨slot, made⟩ := (numbered_perform earlier).made isStep
  obtain ⟨finalSlot, madeFinal⟩ := (numbered_perform (earlier ++ more)).made isStepOfWhole
  rw [found, Option.some.injEq] at made
  rw [foundFinal, Option.some.injEq] at madeFinal
  simp [made, madeFinal]

end Moment

namespace Moment.Undisturbed

variable {moment : Moment}

theorem lasting (undisturbed : moment.Undisturbed) {earlier front back more : List Step}
    {step : Step} (numbered : Numbered earlier (after moment.before))
    (consumes : Consumes earlier.length moment.call.given (front ++ step :: back) [moment.id])
    (passes : ∀ next ∈ more, ∀ id : Nat, id ∈ next.passed →
      (∃ call ∈ moment.later, id ∈ call.given) ∨
        (earlier ++ (front ++ step :: back)).length < id) :
    Lasting (earlier ++ front) step (back ++ more) := by
  have old : ∀ id : Nat, id ∈ moment.call.given → 0 < id ∧ id ≤ earlier.length :=
    fun id isGiven => numbered.stored_iff.mp (undisturbed.stored id isGiven)
  have distinct := consumes.nodup undisturbed.distinct fun id isGiven => (old id isGiven).2
  have once := distinct.of_append_left
  rw [List.flatMap_append, List.flatMap_cons, List.nodup_append, List.nodup_append] at once
  have isStep : (front ++ step :: back)[front.length]? = some step := by simp
  have lastMade := consumes.last_made (fun id isGiven => (old id isGiven).2) (by simp)
  constructor
  · intro id passed
    rw [List.length_append]
    rcases consumes.existing isStep passed with isGiven | isNew
    · have bounds := old id isGiven
      omega
    · omega
  · exact once.2.1.1
  · intro next isNext id again passed
    rcases List.mem_append.mp isNext with inside | isLater
    · exact once.2.1.2.2 id passed id (List.mem_flatMap.mpr ⟨next, inside, again⟩) rfl
    · simp only [List.length_append, List.length_cons] at passes lastMade
      rcases passes next isLater id again with ⟨call, isCall, isPassed⟩ | beyond
      · obtain ⟨notGiven, notInside⟩ := undisturbed.spared call isCall id isPassed
        rw [numbered.lastId] at notInside
        rcases consumes.existing isStep passed with isGiven | isNew
        · exact notGiven isGiven
        · exact notInside ⟨isNew.1, Nat.lt_of_le_of_lt isNew.2 (by rw [lastMade]; omega)⟩
      · rcases consumes.existing isStep passed with isGiven | isNew
        · have bounds := old id isGiven
          omega
        · omega

theorem holds (undisturbed : moment.Undisturbed) {call : Call} {told : Graph → NodeId → Prop}
    (isCall : moment.call = call) (makes : Makes call.given call.run told) :
    told moment.graph moment.id := by
  subst isCall
  obtain ⟨earlier, performed⟩ := after_performed moment.before
  obtain ⟨steps, made, consumes, tells⟩ := makes (after moment.before)
  obtain ⟨more, performedMore, passes⟩ := exists_steps moment.later (earlier ++ steps)
  have numbered := numbered_perform earlier
  rw [← performed] at numbered
  rw [numbered.lastId] at consumes
  have whole : moment.graph = (perform (earlier ++ steps ++ more) .empty).graph := by
    rw [← performedMore, perform_append, ← performed, ← made]
    simp [Moment.graph, after, Moment.calls]
  apply tells
  constructor
  · rw [whole]
    exact (numbered_perform _).own_id
  · intro index step isStep sorted
    obtain ⟨front, back, rfl, rfl⟩ := exists_split isStep
    have lasting := undisturbed.lasting numbered consumes passes
    have arranged : earlier ++ (front ++ step :: back) ++ more =
        earlier ++ front ++ step :: (back ++ more) := by simp
    have written := lasting.written sorted
    rw [← arranged, ← whole, List.length_append] at written
    rw [numbered.lastId]
    exact written

end Moment.Undisturbed

theorem ids_of_nodes {graph : Graph} (keyed : graph.Keyed) {ids : List NodeId} {nodes : List Node}
    (found : graph.nodes ids = .ok nodes) : nodes.map Node.id = ids := by
  induction ids generalizing nodes with
  | nil =>
      simp only [Graph.nodes, Except.ok.injEq] at found
      subst nodes
      rfl
  | cons id rest ih =>
      cases stored : graph.node? id with
      | none => simp [Graph.nodes, Graph.node, stored, bind, Except.bind] at found
      | some node =>
          cases others : graph.nodes rest with
          | error failure =>
              simp [Graph.nodes, Graph.node, stored, others, bind, Except.bind] at found
          | ok more =>
              rw [nodes_cons stored others, Except.ok.injEq] at found
              subst nodes
              simp [keyed stored, ih others]

namespace Moment.Undisturbed

variable {moment : Moment} {elements : List NodeId}

theorem holdsArray (undisturbed : moment.Undisturbed)
    (isArray : moment.call = .csvArray elements ∨
      moment.call = .array elements ∧ (∀ element ∈ elements, ∀ node,
        (after moment.before).graph.node? element = some node → node.kind ≠ .csv)) :
    moment.graph.HoldsArray moment.id elements := by
  rcases isArray with isCall | ⟨isCall, plain⟩
  · exact undisturbed.holds isCall (csvArray_makes elements)
  · have written := undisturbed.holds isCall (array_makes elements)
    refine written.holdsArray (opensTo_self ?_)
    intro element member
    have isGiven : element ∈ moment.call.given := by
      rw [isCall]
      exact member
    obtain ⟨node, found⟩ := Option.isSome_iff_exists.mp (undisturbed.stored element isGiven)
    have listed : element ∈ (arrayPlaces elements).map (·.2) := by
      rw [map_arrayPlaces]
      exact member
    obtain ⟨place, isPlace, rfl⟩ := List.mem_map.mp listed
    obtain ⟨final, foundFinal⟩ := written.exists_child isPlace
    refine ⟨final, foundFinal, ?_⟩
    rw [moment.same_kind found foundFinal]
    exact plain _ member node found

end Moment.Undisturbed

theorem Moment.Declares.readsParameter {moment : Moment}
    {declaration : String × Bool × Option (PrimitiveName × Bool)} {parameter : NodeId}
    (declares : moment.Declares declaration parameter) :
    moment.graph.ReadsParameter declaration parameter := by
  obtain ⟨other, sameCalls, undisturbed, isCall, rfl⟩ := declares
  have sameGraph : other.graph = moment.graph := by rw [Moment.graph, sameCalls, Moment.graph]
  rw [← sameGraph]
  exact undisturbed.holds isCall (parameter_makes _ _ _)

/-- The accessors read back what was built: the elements of an array, the pairs of a record, `let`
or section, the fields of a field list, and the signature of a function over declared parameters. -/
theorem accessors_readBack {moment : Moment} (undisturbed : moment.Undisturbed) :
    (∀ elements, moment.call = .csvArray elements ∨
        moment.call = .array elements ∧ (∀ element ∈ elements, ∀ node,
          (after moment.before).graph.node? element = some node → node.kind ≠ .csv) →
      ∃ wrapper contents, moment.graph.node? moment.id = some wrapper ∧
        moment.graph.arrayContents wrapper = .ok contents ∧ contents.map Node.id = elements) ∧
    (∀ pairs, moment.call = .recordExpression pairs ∨ moment.call = .recordLiteral pairs →
      moment.graph.ReadsPairs moment.graph.recordPairs moment.id pairs) ∧
    (∀ bindings body, moment.call = .letExpression bindings body →
      moment.graph.ReadsPairs moment.graph.letPairs moment.id bindings) ∧
    (∀ members, moment.call = .sectionOf members →
      moment.graph.ReadsPairs moment.graph.sectionPairs moment.id members) ∧
    (∀ fields isOpen, moment.call = .fieldSpecificationList fields isOpen →
      ∃ list listed, moment.graph.node? moment.id = some list ∧
        moment.graph.fieldSpecifications list = .ok (listed, isOpen) ∧
        listed.map FieldSpecification.entry = fields.map fun field => (field.1, false, field.2)) ∧
    (∀ parameters returnType? body, moment.call = .functionExpression parameters returnType? body →
      ∀ declarations, List.Forall₂ moment.Declares declarations parameters →
        ∃ function, moment.graph.node? moment.id = some function ∧
          moment.graph.functionSignature function =
            .ok ⟨List.zipWith ParameterSignature.declaring declarations parameters,
              returnType?⟩) := by
  refine ⟨?_, ?_, ?_, ?_, ?_, ?_⟩
  · intro elements isArray
    obtain ⟨wrapper, contents, stored, -, read, found⟩ := undisturbed.holdsArray isArray
    exact ⟨wrapper, contents, stored, read, ids_of_nodes moment.keyed found⟩
  · rintro pairs (isCall | isCall)
    · exact undisturbed.holds isCall (record_makes _ (by decide) pairs)
    · exact undisturbed.holds isCall (record_makes _ (by decide) pairs)
  · intro bindings body isCall
    exact undisturbed.holds isCall (letExpression_makes bindings body)
  · intro members isCall
    exact undisturbed.holds isCall (sectionOf_makes members)
  · intro fields isOpen isCall
    exact undisturbed.holds isCall (fieldSpecificationList_makes fields isOpen)
  · intro parameters returnType? body isCall declarations declared
    have reads := undisturbed.holds isCall (functionExpression_makes parameters returnType? body)
    exact reads declarations (declared.imp fun _ _ => Moment.Declares.readsParameter)

/-- The function `(x, optional y as nullable number) as text => x`, built and then wrapped. -/
def functionSample : Moment where
  before :=
    [.parameter "x" false none, .parameter "y" true (some (.number, true)),
      .identifierExpression "x"]
  call := .functionExpression [2, 10] (some (.text, false)) 12
  later := [.parenthesized 24, .numericLiteral "1", .listExpression [27, 28]]

theorem functionSample_readBack : functionSample.Undisturbed ∧
    ∃ function, functionSample.graph.node? functionSample.id = some function ∧
      functionSample.graph.functionSignature function =
        .ok ⟨[⟨2, "x", false, true, none⟩, ⟨10, "y", true, true, some .number⟩],
          some (.text, false)⟩ := by
  have undisturbed : functionSample.Undisturbed :=
    ⟨by decide +kernel, by decide +kernel, by decide +kernel⟩
  have first : functionSample.Declares ("x", false, none) 2 :=
    ⟨⟨[], .parameter "x" false none, functionSample.calls.drop 1⟩, rfl,
      ⟨by decide +kernel, by decide +kernel, by decide +kernel⟩, rfl, by decide +kernel⟩
  have second : functionSample.Declares ("y", true, some (.number, true)) 10 :=
    ⟨⟨functionSample.calls.take 1, .parameter "y" true (some (.number, true)),
        functionSample.calls.drop 2⟩, rfl,
      ⟨by decide +kernel, by decide +kernel, by decide +kernel⟩, rfl, by decide +kernel⟩
  exact ⟨undisturbed, (accessors_readBack undisturbed).2.2.2.2.2 _ _ _ rfl _
    (.cons first (.cons second .nil))⟩

end Builder

end FormulaInspection
