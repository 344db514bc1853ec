import FormulaInspection.Proofs.Calls
import FormulaInspection.Proofs.TreeShape

/-!
Builders make forests. As long as nodes are passed on that exist and have not been attached before,
the graph is tree-shaped after every call and at every moment within one: the ids count the nodes,
parents and children mirror each other and lead upwards, and children stand in the order of their
slots.
-/

namespace FormulaInspection

namespace Builder

open FormulaInspection.Graph

variable {steps : List Step} {step : Step} {id child parent : Nat}

theorem exists_concat {property : Nat → Step → Prop} :
    (∃ index made, (steps ++ [step])[index]? = some made ∧ property index made) ↔
      (∃ index made, steps[index]? = some made ∧ property index made) ∨
        property steps.length step := by
  constructor
  · rintro ⟨index, made, isMade, holds⟩
    rcases getElem?_concat isMade with ⟨old, wasMade⟩ | ⟨rfl, rfl⟩
    · exact .inl ⟨index, made, wasMade, holds⟩
    · exact .inr holds
  · rintro (⟨index, made, wasMade, holds⟩ | holds)
    · have old := (List.getElem?_eq_some_iff.mp wasMade).1
      exact ⟨index, made, by rw [List.getElem?_append_left old, wasMade], holds⟩
    · exact ⟨steps.length, step, by simp, holds⟩

theorem perform_concat (steps : List Step) (step : Step) :
    perform (steps ++ [step]) .empty = (step.make (perform steps .empty)).2 := by
  rw [perform_append]
  rfl

theorem passed_of_parentId? (linked : (perform steps .empty).graph.parentId? child = some parent) :
    ∃ index step, steps[index]? = some step ∧ child ∈ step.passed ∧ parent = index + 1 := by
  induction steps using List.reverseRecOn with
  | nil => simp [perform, Builder.empty, Graph.empty, Graph.parentId?] at linked
  | append_singleton steps last ih =>
      rw [perform_concat, (numbered_perform steps).parentId?_make] at linked
      rw [exists_concat]
      by_cases passed : child ∈ last.passed
      · rw [if_pos passed, Option.some.injEq] at linked
        exact .inr ⟨passed, linked.symm⟩
      · rw [if_neg passed] at linked
        exact .inl (ih linked)

theorem mem_astNodes_perform : id ∈ (perform steps .empty).graph.astNodes ↔
    ∃ index step, steps[index]? = some step ∧ step.payload?.isSome ∧ id = index + 1 := by
  induction steps using List.reverseRecOn with
  | nil => simp [perform, Builder.empty, Graph.empty]
  | append_singleton steps last ih =>
      rw [perform_concat, (numbered_perform steps).mem_astNodes_make, ih, exists_concat]
      constructor
      · rintro (⟨isLast, complete⟩ | earlier)
        · exact .inr ⟨complete, isLast⟩
        · exact .inl earlier
      · rintro (earlier | ⟨complete, isLast⟩)
        · exact .inr earlier
        · exact .inl ⟨isLast, complete⟩

theorem mem_leaves_perform : id ∈ (perform steps .empty).graph.leaves ↔
    ∃ index step, steps[index]? = some step ∧
      (step.payload?.isSome ∧ step.children = []) ∧ id = index + 1 := by
  induction steps using List.reverseRecOn with
  | nil => simp [perform, Builder.empty, Graph.empty]
  | append_singleton steps last ih =>
      rw [perform_concat, (numbered_perform steps).mem_leaves_make, ih, exists_concat]
      constructor
      · rintro (⟨isLast, isLeaf⟩ | earlier)
        · exact .inr ⟨isLeaf, isLast⟩
        · exact .inl earlier
      · rintro (earlier | ⟨isLeaf, isLast⟩)
        · exact .inr earlier
        · exact .inl ⟨isLast, isLeaf⟩

theorem slotOf_unpassed (unpassed : ∀ step ∈ steps, id ∉ step.passed) :
    (perform steps .empty).graph.slotOf id = none := by
  induction steps using List.reverseRecOn with
  | nil => simp [perform, Builder.empty, Graph.empty, Graph.slotOf, Graph.node?]
  | append_singleton steps last ih =>
      have before := ih fun step member => unpassed step (by simp [member])
      rw [perform_concat, Graph.slotOf,
        (numbered_perform steps).node?_make (unpassed last (by simp))]
      by_cases new : steps.length + 1 = id
      · simp [new]
      · rw [if_neg new]
        exact before

structure Orderly (steps : List Step) : Prop where
  existing : ∀ {index : Nat} {step}, steps[index]? = some step →
    ∀ {id : Nat}, id ∈ step.passed → 0 < id ∧ id ≤ index
  once : (steps.flatMap Step.passed).Nodup

theorem Orderly.lasting (orderly : Orderly steps) {index : Nat}
    (isStep : steps[index]? = some step) :
    ∃ before later, steps = before ++ step :: later ∧ before.length = index ∧
      Lasting before step later := by
  obtain ⟨before, later, rfl, rfl⟩ := exists_split isStep
  refine ⟨before, later, rfl, rfl, orderly.existing isStep, ?_, ?_⟩
  all_goals
    have once := orderly.once
    rw [List.flatMap_append, List.flatMap_cons, List.nodup_append, List.nodup_append] at once
  · exact once.2.1.1
  · intro next isNext id again passed
    exact once.2.1.2.2 id passed id (List.mem_flatMap.mpr ⟨next, isNext, again⟩) rfl

structure Forest (steps : List Step) (builder : Builder) : Prop where
  numbered : Numbered steps builder
  tree : builder.graph.TreeShaped
  attached : ∀ {index : Nat} {step}, steps[index]? = some step → ∀ {child},
    builder.graph.parentId? child = some (index + 1) ↔ child ∈ step.passed
  younger : ∀ {child parent : Nat}, builder.graph.parentId? child = some parent → child < parent
  /-- Every child has a slot, and children stand in the order of their slots. -/
  sorted : ∀ parent, ∃ slots : List Nat,
    (builder.graph.childIds parent).map builder.graph.slotOf = slots.map some ∧
      slots.Pairwise (· ≤ ·)
  /-- Children that share a slot stand in the order in which they were attached. -/
  ties : ∀ {index : Nat} {step}, steps[index]? = some step → ∀ slot,
    (builder.graph.childIds (index + 1)).filter (builder.graph.slotOf · = some slot) =
      (step.children.filter (·.1 = slot)).map (·.2)
  roots : ∀ {id}, builder.graph.parentId? id = none → builder.graph.slotOf id = none
  leaves : ∀ {id}, id ∈ builder.graph.leaves ↔
    id ∈ builder.graph.astNodes ∧ builder.graph.childIds id = []

namespace Orderly

variable {index : Nat}

theorem lists (orderly : Orderly steps) (isStep : steps[index]? = some step) :
    (perform steps .empty).graph.Lists (index + 1) step.children := by
  obtain ⟨before, later, rfl, rfl, lasting⟩ := orderly.lasting isStep
  exact lasting.lists

theorem slotted (orderly : Orderly steps) (isStep : steps[index]? = some step)
    {place : Nat × NodeId} (member : place ∈ step.children) :
    (perform steps .empty).graph.slotOf place.2 = some place.1 := by
  obtain ⟨before, later, rfl, rfl, lasting⟩ := orderly.lasting isStep
  exact lasting.slotOf_eq member

theorem attached (orderly : Orderly steps) (isStep : steps[index]? = some step) :
    (perform steps .empty).graph.parentId? child = some (index + 1) ↔ child ∈ step.passed := by
  constructor
  · intro linked
    obtain ⟨other, maker, isMaker, passed, same⟩ := passed_of_parentId? linked
    have sameIndex : index = other := by omega
    subst sameIndex
    rw [isStep, Option.some.injEq] at isMaker
    rw [isMaker]
    exact passed
  · intro passed
    obtain ⟨before, later, rfl, rfl, lasting⟩ := orderly.lasting isStep
    exact lasting.parentId?_eq passed

theorem linked (orderly : Orderly steps)
    (isParent : (perform steps .empty).graph.parentId? child = some parent) :
    0 < child ∧ child < parent ∧ parent ≤ steps.length := by
  obtain ⟨index, step, isStep, passed, rfl⟩ := passed_of_parentId? isParent
  have bounds := orderly.existing isStep passed
  have indexBound := (List.getElem?_eq_some_iff.mp isStep).1
  omega

theorem mirrored (orderly : Orderly steps) :
    child ∈ (perform steps .empty).graph.childIds parent ↔
      (perform steps .empty).graph.parentId? child = some parent := by
  have numbered := numbered_perform steps
  cases found : (perform steps .empty).graph.node? parent with
  | none =>
      rw [numbered.childless found]
      constructor
      · intro member
        cases member
      · intro isParent
        have bounds := orderly.linked isParent
        have stored := numbered.stored_iff.mpr (by omega : 0 < parent ∧ parent ≤ steps.length)
        simp [found] at stored
  | some node =>
      obtain ⟨index, step, isStep, rfl⟩ := numbered.maker found
      exact (orderly.lists isStep).members.mem_iff.trans (orderly.attached isStep).symm

theorem childIds_nodup (orderly : Orderly steps) (parent : Nat) :
    ((perform steps .empty).graph.childIds parent).Nodup := by
  cases found : (perform steps .empty).graph.node? parent with
  | none =>
      rw [(numbered_perform steps).childless found]
      exact List.nodup_nil
  | some node =>
      obtain ⟨index, step, isStep, rfl⟩ := (numbered_perform steps).maker found
      obtain ⟨before, later, -, -, lasting⟩ := orderly.lasting isStep
      exact (orderly.lists isStep).members.nodup_iff.mpr lasting.distinct

theorem acyclic (orderly : Orderly steps) (id : Nat) :
    ¬Relation.TransGen (perform steps .empty).graph.IsParent id id := by
  have ascends : ∀ {low high : Nat},
      Relation.TransGen (perform steps .empty).graph.IsParent low high → low < high := by
    intro low high path
    induction path with
    | single isParent => exact (orderly.linked isParent).2.1
    | tail _ isParent ih => exact Nat.lt_trans ih (orderly.linked isParent).2.1
  intro loop
  exact Nat.lt_irrefl id (ascends loop)

theorem treeShaped (orderly : Orderly steps) : (perform steps .empty).graph.TreeShaped where
  ownId := (numbered_perform steps).own_id
  linked := by
    intro child parent isParent
    have bounds := orderly.linked isParent
    have numbered := numbered_perform steps
    exact ⟨numbered.stored_iff.mpr (by omega), numbered.stored_iff.mpr (by omega)⟩
  mirrored := orderly.mirrored
  once := orderly.childIds_nodup
  acyclic := orderly.acyclic

theorem sorted (orderly : Orderly steps) (parent : Nat) :
    ∃ slots : List Nat, ((perform steps .empty).graph.childIds parent).map
        (perform steps .empty).graph.slotOf = slots.map some ∧ slots.Pairwise (· ≤ ·) := by
  cases found : (perform steps .empty).graph.node? parent with
  | none =>
      rw [(numbered_perform steps).childless found]
      exact ⟨[], rfl, .nil⟩
  | some node =>
      obtain ⟨index, step, isStep, rfl⟩ := (numbered_perform steps).maker found
      have lists := orderly.lists isStep
      have inSlot : ∀ child ∈ (perform steps .empty).graph.childIds (index + 1),
          ∃ slot, (perform steps .empty).graph.slotOf child = some slot := by
        intro child member
        obtain ⟨place, isPlace, rfl⟩ := List.mem_map.mp (lists.members.mem_iff.mp member)
        exact ⟨place.1, orderly.slotted isStep isPlace⟩
      refine ⟨((perform steps .empty).graph.childIds (index + 1)).map fun child =>
        ((perform steps .empty).graph.slotOf child).getD 0, ?_, ?_⟩
      · rw [List.map_map]
        apply List.map_congr_left
        intro child member
        obtain ⟨slot, isSlot⟩ := inSlot child member
        simp [isSlot]
      · refine List.pairwise_map.mpr (lists.ordered.imp_of_mem ?_)
        intro left right leftMember rightMember notAfter
        obtain ⟨leftSlot, isLeft⟩ := inSlot left leftMember
        obtain ⟨rightSlot, isRight⟩ := inSlot right rightMember
        simpa [isLeft, isRight, slotAfter] using notAfter

theorem roots (orderly : Orderly steps)
    (isRoot : (perform steps .empty).graph.parentId? id = none) :
    (perform steps .empty).graph.slotOf id = none := by
  apply slotOf_unpassed
  intro step member passed
  obtain ⟨index, isStep⟩ := List.mem_iff_getElem?.mp member
  have isParent := (orderly.attached isStep).mpr passed
  rw [isRoot] at isParent
  cases isParent

theorem leaves (orderly : Orderly steps) : id ∈ (perform steps .empty).graph.leaves ↔
    id ∈ (perform steps .empty).graph.astNodes ∧
      (perform steps .empty).graph.childIds id = [] := by
  have childless : ∀ {index : Nat} {step}, steps[index]? = some step →
      ((perform steps .empty).graph.childIds (index + 1) = [] ↔ step.children = []) := by
    intro index step isStep
    have members := (orderly.lists isStep).members
    rw [← List.length_eq_zero_iff, members.length_eq, List.length_map, List.length_eq_zero_iff]
  rw [mem_leaves_perform, mem_astNodes_perform]
  constructor
  · rintro ⟨index, step, isStep, ⟨complete, noChildren⟩, rfl⟩
    exact ⟨⟨index, step, isStep, complete, rfl⟩, (childless isStep).mpr noChildren⟩
  · rintro ⟨⟨index, step, isStep, complete, rfl⟩, noChildren⟩
    exact ⟨index, step, isStep, ⟨complete, (childless isStep).mp noChildren⟩, rfl⟩

theorem forest (orderly : Orderly steps) : Forest steps (perform steps .empty) where
  numbered := numbered_perform steps
  tree := orderly.treeShaped
  attached := fun isStep => orderly.attached isStep
  younger := fun isParent => (orderly.linked isParent).2.1
  sorted := orderly.sorted
  ties := fun isStep => (orderly.lists isStep).ties
  roots := orderly.roots
  leaves := orderly.leaves

theorem of_prefix (orderly : Orderly steps) {early : List Step} (isEarly : early <+: steps) :
    Orderly early := by
  obtain ⟨rest, rfl⟩ := isEarly
  constructor
  · intro index step isStep id passed
    have old := (List.getElem?_eq_some_iff.mp isStep).1
    exact orderly.existing (by rw [List.getElem?_append_left old, isStep]) passed
  · have once := orderly.once
    rw [List.flatMap_append] at once
    exact once.of_append_left

theorem append (orderly : Orderly steps) {pool left : List NodeId} {more : List Step}
    (consumes : Consumes steps.length pool more left) (distinct : pool.Nodup)
    (unused : ∀ id : Nat, id ∈ pool →
      (0 < id ∧ id ≤ steps.length) ∧ id ∉ steps.flatMap Step.passed) :
    Orderly (steps ++ more) where
  existing := by
    intro index step isStep id passed
    by_cases old : index < steps.length
    · rw [List.getElem?_append_left old] at isStep
      exact orderly.existing isStep passed
    · rw [List.getElem?_append_right (by omega)] at isStep
      rcases consumes.existing isStep passed with inPool | isNew
      · have bounds := (unused id inPool).1
        omega
      · omega
  once := by
    have onceMore := consumes.nodup distinct fun id inPool => (unused id inPool).1.2
    rw [List.flatMap_append, List.nodup_append]
    refine ⟨orderly.once, onceMore.of_append_left, ?_⟩
    rintro id before other again rfl
    have available := consumes.balanced.mem_iff.mp (List.mem_append_left left again)
    rcases List.mem_append.mp available with inPool | isNew
    · exact (unused id inPool).2 before
    · obtain ⟨step, isStep, passed⟩ := List.mem_flatMap.mp before
      obtain ⟨index, found⟩ := List.mem_iff_getElem?.mp isStep
      have bounds := orderly.existing found passed
      have indexBound := (List.getElem?_eq_some_iff.mp found).1
      have newBounds := List.mem_range'_1.mp isNew
      omega

end Orderly

/-- The nodes that the call is given exist, are distinct and have not been attached, neither by a
caller nor inside a construct. -/
def Call.Accepted (call : Call) (builder : Builder) : Prop :=
  call.given.Nodup ∧ ∀ id ∈ call.given,
    (builder.graph.node? id).isSome ∧ builder.graph.parentId? id = none

instance (call : Call) (builder : Builder) : Decidable (call.Accepted builder) :=
  inferInstanceAs (Decidable (_ ∧ _))

def ProperFrom (builder : Builder) : List Call → Prop
  | [] => True
  | call :: rest => call.Accepted builder ∧ ProperFrom (call.run builder).2 rest

instance decidableProperFrom : (builder : Builder) → (calls : List Call) →
    Decidable (ProperFrom builder calls)
  | _, [] => inferInstanceAs (Decidable True)
  | builder, call :: rest =>
    have := decidableProperFrom (call.run builder).2 rest
    inferInstanceAs (Decidable (_ ∧ _))

theorem ProperFrom.of_prefix {builder : Builder} {calls done : List Call}
    (proper : ProperFrom builder calls) (isPoint : done <+: calls) : ProperFrom builder done := by
  obtain ⟨rest, rfl⟩ := isPoint
  induction done generalizing builder with
  | nil => trivial
  | cons call done ih => exact ⟨proper.1, ih proper.2⟩

theorem Orderly.call (orderly : Orderly steps) {call : Call}
    (accepted : call.Accepted (perform steps .empty)) :
    ∃ more, (call.run (perform steps .empty)).2 = perform (steps ++ more) .empty ∧
      Orderly (steps ++ more) := by
  obtain ⟨more, performed, consumes⟩ := call.performs steps
  refine ⟨more, performed, orderly.append consumes accepted.1 ?_⟩
  intro id isGiven
  obtain ⟨stored, isRoot⟩ := accepted.2 id isGiven
  refine ⟨(numbered_perform steps).stored_iff.mp stored, ?_⟩
  intro passed
  obtain ⟨step, isStep, inside⟩ := List.mem_flatMap.mp passed
  obtain ⟨index, found⟩ := List.mem_iff_getElem?.mp isStep
  have isParent := (orderly.attached found).mpr inside
  rw [isRoot] at isParent
  cases isParent

theorem Orderly.calls (orderly : Orderly steps) {calls : List Call}
    (proper : ProperFrom (perform steps .empty) calls) :
    ∃ more, calls.foldl (fun builder call => (call.run builder).2) (perform steps .empty) =
      perform (steps ++ more) .empty ∧ Orderly (steps ++ more) := by
  induction calls generalizing steps with
  | nil => exact ⟨[], by simp, by simpa using orderly⟩
  | cons call rest ih =>
      obtain ⟨more, performed, orderlyMore⟩ := orderly.call proper.1
      have properRest := proper.2
      rw [performed] at properRest
      obtain ⟨others, performedRest, orderlyRest⟩ := ih orderlyMore properRest
      refine ⟨more ++ others, ?_, ?_⟩
      · rw [List.foldl_cons, performed, performedRest, List.append_assoc]
      · rw [← List.append_assoc]
        exact orderlyRest

/-- Whatever is built by proper calls is a forest after each of them, and after each single node
that they make. -/
theorem builder_forest {calls done : List Call} (proper : ProperFrom .empty calls)
    (isPoint : done <+: calls) :
    ∃ steps, after done = perform steps .empty ∧
      ∀ early, early <+: steps → Forest early (perform early .empty) := by
  have start : Orderly [] := ⟨by simp, by simp⟩
  obtain ⟨steps, performed, orderly⟩ := start.calls (proper.of_prefix isPoint)
  refine ⟨steps, performed, ?_⟩
  intro early isEarly
  exact (orderly.of_prefix isEarly).forest

/-- A record and a use of a name below a branch that is not finished, attached out of order and with
two children in one slot. -/
def forestSample : List Call :=
  [.numericLiteral "1", .textLiteral "a", .identifierExpression "x", .recordExpression [("k", 1)],
    .context .ifExpression [(3, 2), (1, 12), (3, 4)]]

theorem forestSample_grows : ProperFrom .empty forestSample ∧
    ∃ steps, after forestSample = perform steps .empty ∧
      ∀ early, early <+: steps → Forest early (perform early .empty) :=
  ⟨by decide +kernel, builder_forest (by decide +kernel) (List.prefix_refl forestSample)⟩

end Builder

end FormulaInspection
