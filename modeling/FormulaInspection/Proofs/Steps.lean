import FormulaInspection.Proofs.Linking

/-!
A builder makes its nodes one at a time. Whatever it is told to make, the nodes are numbered from
one in the order of making and keep their kinds and payloads. What a step writes stays as long as no
later step attaches the same children again.
-/

namespace FormulaInspection

namespace Builder

open FormulaInspection.Graph

structure Step where
  kind : NodeKind
  payload? : Option Payload
  children : List (Nat × NodeId)
  deriving DecidableEq

namespace Step

def make (step : Step) : Build NodeId :=
  match step.payload? with
  | some payload => ast step.kind payload step.children
  | none => context step.kind step.children

def passed (step : Step) : List NodeId :=
  step.children.map (·.2)

def node (step : Step) (id : NodeId) (slot : Option Nat) : Node :=
  match step.payload? with
  | some payload => .ast { id, kind := step.kind, slot, payload }
  | none => .context { id, kind := step.kind, slot }

def store (step : Step) (graph : Graph) (id : NodeId) : Graph :=
  match step.payload? with
  | some payload =>
    let graph := graph.insertAst { id, kind := step.kind, slot := none, payload }
    if step.children.isEmpty then graph.markLeaf id else graph
  | none => graph.insertContext { id, kind := step.kind, slot := none }

theorem make_eq (step : Step) (builder : Builder) :
    step.make builder = (builder.lastId + 1,
      { graph := attach (step.store builder.graph (builder.lastId + 1)) (builder.lastId + 1)
          step.children
        lastId := builder.lastId + 1 }) := by
  unfold make store
  cases step.payload? with
  | some payload => rfl
  | none => rfl

variable {step : Step} {graph : Graph} {id : NodeId}

@[simp] theorem id_node {slot : Option Nat} : (step.node id slot).id = id := by
  unfold Step.node
  cases step.payload? <;> rfl

@[simp] theorem slot_node {slot : Option Nat} : (step.node id slot).slot = slot := by
  unfold Step.node
  cases step.payload? <;> rfl

@[simp] theorem kind_node {slot : Option Nat} : (step.node id slot).kind = step.kind := by
  unfold Step.node
  cases step.payload? <;> rfl

theorem withSlot_node {slot : Option Nat} (place : Nat) :
    (step.node id slot).withSlot place = step.node id (some place) := by
  unfold Step.node
  cases step.payload? <;> rfl

theorem store_links : (step.store graph id).parents = graph.parents ∧
    (step.store graph id).children = graph.children := by
  unfold store
  split
  · dsimp only
    split <;> exact ⟨rfl, rfl⟩
  · exact ⟨rfl, rfl⟩

theorem node?_store (fresh : graph.node? id = none) (other : NodeId) :
    (step.store graph id).node? other =
      if id = other then some (step.node id none) else graph.node? other := by
  have incomplete : graph.astNodes[id]? = none := by
    unfold Graph.node? at fresh
    cases complete : graph.astNodes[id]? with
    | none => rfl
    | some node => simp [complete] at fresh
  unfold store Step.node
  cases step.payload? with
  | some payload =>
      have inserted : (graph.insertAst ⟨id, step.kind, none, payload⟩).node? other =
          if id = other then some (.ast ⟨id, step.kind, none, payload⟩) else graph.node? other := by
        by_cases same : id = other
        · simp [Graph.node?, insertAst, same]
        · simp [Graph.node?, insertAst, Std.ExtTreeMap.getElem?_insert,
            Std.ExtTreeMap.getElem?_erase, same]
      rw [← inserted]
      dsimp only
      split <;> rfl
  | none =>
      by_cases same : id = other
      · subst other
        simp [Graph.node?, insertContext, incomplete]
      · simp [Graph.node?, insertContext, Std.ExtTreeMap.getElem?_insert, same]

end Step

def perform (steps : List Step) (builder : Builder) : Builder :=
  steps.foldl (fun builder step => (step.make builder).2) builder

theorem perform_append (steps more : List Step) (builder : Builder) :
    perform (steps ++ more) builder = perform more (perform steps builder) := by
  simp [perform]

theorem perform_cons (step : Step) (steps : List Step) (builder : Builder) :
    perform (step :: steps) builder = perform steps (step.make builder).2 :=
  rfl

theorem lastId_perform (steps : List Step) (builder : Builder) :
    (perform steps builder).lastId = builder.lastId + steps.length := by
  induction steps generalizing builder with
  | nil => rfl
  | cons step rest ih =>
      rw [perform_cons, ih, Step.make_eq]
      exact Nat.add_right_comm builder.lastId 1 rest.length

structure Numbered (steps : List Step) (builder : Builder) : Prop where
  lastId : builder.lastId = steps.length
  made : ∀ {index : Nat} {step}, steps[index]? = some step →
    ∃ slot, builder.graph.node? (index + 1) = some (step.node (index + 1) slot)
  only : ∀ {id : Nat}, (builder.graph.node? id).isSome → 0 < id ∧ id ≤ steps.length
  apart : ∀ {id : Nat}, id ∈ builder.graph.astNodes → id ∉ builder.graph.contextNodes
  childless : ∀ {id : Nat}, builder.graph.node? id = none → builder.graph.childIds id = []

variable {steps more : List Step} {step : Step} {builder : Builder} {graph : Graph}
  {parent id : Nat} {children : List (Nat × NodeId)}

theorem getElem?_concat {index : Nat} {made : Step}
    (isMade : (steps ++ [step])[index]? = some made) :
    index < steps.length ∧ steps[index]? = some made ∨ index = steps.length ∧ made = step := by
  by_cases old : index < steps.length
  · rw [List.getElem?_append_left old] at isMade
    exact .inl ⟨old, isMade⟩
  · have bounded := (List.getElem?_eq_some_iff.mp isMade).1
    simp only [List.length_append, List.length_singleton] at bounded
    have isLast : index = steps.length := by omega
    subst isLast
    simp only [List.getElem?_concat_length, Option.some.injEq] at isMade
    exact .inr ⟨rfl, isMade.symm⟩

theorem node?_attach_made (made : ∃ slot, graph.node? id = some (step.node id slot)) :
    ∃ slot, (attach graph parent children).node? id = some (step.node id slot) := by
  induction children using List.reverseRecOn with
  | nil => exact made
  | append_singleton rest place ih =>
      obtain ⟨slot, found⟩ := ih
      rw [node?_attach_concat, found]
      by_cases same : place.2 = id
      · exact ⟨some place.1, by simp [same, Step.withSlot_node]⟩
      · exact ⟨slot, by simp [same]⟩

theorem isSome_node?_attach :
    ((attach graph parent children).node? id).isSome = (graph.node? id).isSome := by
  induction children using List.reverseRecOn with
  | nil => rfl
  | append_singleton rest place ih =>
      rw [node?_attach_concat, ← ih]
      by_cases same : place.2 = id
      · simp [same]
      · simp [same]

namespace Numbered

theorem empty : Numbered [] Builder.empty := by
  constructor
  · rfl
  · simp
  · simp [Builder.empty, Graph.empty, Graph.node?]
  · simp [Builder.empty, Graph.empty]
  · simp [Builder.empty, Graph.empty, Graph.childIds]

theorem fresh (numbered : Numbered steps builder) (beyond : steps.length < id) :
    builder.graph.node? id = none := by
  cases found : builder.graph.node? id with
  | none => rfl
  | some node =>
      have bounds := numbered.only (by rw [found]; rfl)
      omega

theorem stored_iff (numbered : Numbered steps builder) :
    (builder.graph.node? id).isSome ↔ 0 < id ∧ id ≤ steps.length := by
  constructor
  · exact numbered.only
  · rintro ⟨positive, bounded⟩
    have bound : id - 1 < steps.length := by omega
    obtain ⟨slot, found⟩ := numbered.made (List.getElem?_eq_getElem bound)
    rw [Nat.sub_add_cancel positive] at found
    simp [found]

theorem maker (numbered : Numbered steps builder) {node : Node}
    (found : builder.graph.node? id = some node) :
    ∃ index step, steps[index]? = some step ∧ id = index + 1 := by
  have bounds := numbered.only (by rw [found]; rfl : (builder.graph.node? id).isSome)
  exact ⟨id - 1, _, List.getElem?_eq_getElem (by omega : id - 1 < steps.length), by omega⟩

theorem own_id (numbered : Numbered steps builder) {node : Node}
    (found : builder.graph.node? id = some node) : node.id = id := by
  obtain ⟨index, step, isStep, rfl⟩ := numbered.maker found
  obtain ⟨slot, made⟩ := numbered.made isStep
  rw [found, Option.some.injEq] at made
  simp [made]

theorem graph_make (numbered : Numbered steps builder) (step : Step) :
    (step.make builder).2.graph =
      attach (step.store builder.graph (steps.length + 1)) (steps.length + 1) step.children := by
  rw [Step.make_eq, numbered.lastId]

theorem node?_make (numbered : Numbered steps builder) (notPassed : id ∉ step.passed) :
    (step.make builder).2.graph.node? id =
      if steps.length + 1 = id then some (step.node id none) else builder.graph.node? id := by
  rw [numbered.graph_make, node?_attach_of_notMem notPassed,
    Step.node?_store (numbered.fresh (by omega))]
  by_cases new : steps.length + 1 = id
  · simp [new]
  · simp [new]

theorem childIds_make (numbered : Numbered steps builder) (other : id ≠ steps.length + 1) :
    (step.make builder).2.graph.childIds id = builder.graph.childIds id := by
  rw [numbered.graph_make, childIds_attach_of_ne other, childIds, Step.store_links.2, ← childIds]

theorem parentId?_make (numbered : Numbered steps builder) :
    (step.make builder).2.graph.parentId? id =
      if id ∈ step.passed then some (steps.length + 1) else builder.graph.parentId? id := by
  rw [numbered.graph_make, parentId?_attach, parentId?, Step.store_links.1, ← parentId?]
  rfl

theorem mem_astNodes_make (numbered : Numbered steps builder) :
    id ∈ (step.make builder).2.graph.astNodes ↔
      id = steps.length + 1 ∧ step.payload?.isSome ∨ id ∈ builder.graph.astNodes := by
  rw [numbered.graph_make, mem_astNodes_attach]
  unfold Step.store
  cases step.payload? with
  | some payload =>
      dsimp only
      split <;> simp [insertAst, markLeaf, @eq_comm _ id]
  | none => simp [insertContext]

theorem mem_contextNodes_make (numbered : Numbered steps builder) :
    id ∈ (step.make builder).2.graph.contextNodes ↔
      if id = steps.length + 1 then step.payload? = none else id ∈ builder.graph.contextNodes := by
  have absent : steps.length + 1 ∉ builder.graph.contextNodes := by
    intro member
    have missing := numbered.fresh (by omega : steps.length < steps.length + 1)
    unfold Graph.node? at missing
    split at missing
    · cases missing
    · rw [Option.map_eq_none_iff] at missing
      simp [Std.ExtTreeMap.mem_iff_isSome_getElem?, missing] at member
  rw [numbered.graph_make, mem_contextNodes_attach]
  unfold Step.store
  by_cases new : id = steps.length + 1
  · subst new
    cases step.payload? with
    | some payload =>
        dsimp only
        split <;> simp [insertAst, markLeaf]
    | none => simp [insertContext]
  · cases step.payload? with
    | some payload =>
        dsimp only
        split <;> simp [insertAst, markLeaf, Ne.symm new]
    | none => simp [insertContext, new, Ne.symm new]

theorem mem_leaves_make (numbered : Numbered steps builder) :
    id ∈ (step.make builder).2.graph.leaves ↔
      id = steps.length + 1 ∧ step.payload?.isSome ∧ step.children = [] ∨
        id ∈ builder.graph.leaves := by
  rw [numbered.graph_make, leaves_attach]
  unfold Step.store
  cases step.payload? with
  | none => simp [insertContext]
  | some payload =>
      cases step.children with
      | nil => simp [insertAst, markLeaf, @eq_comm _ id]
      | cons place rest => simp [insertAst]

theorem next (numbered : Numbered steps builder) (step : Step) :
    Numbered (steps ++ [step]) (step.make builder).2 where
  lastId := by rw [Step.make_eq, numbered.lastId, List.length_append]; rfl
  made := by
    intro index earlier isMade
    rw [numbered.graph_make]
    apply node?_attach_made
    rw [Step.node?_store (numbered.fresh (by omega))]
    rcases getElem?_concat isMade with ⟨old, wasMade⟩ | ⟨rfl, rfl⟩
    · have other : steps.length + 1 ≠ index + 1 := by omega
      rw [if_neg other]
      exact numbered.made wasMade
    · exact ⟨none, by simp⟩
  only := by
    intro id
    rw [numbered.graph_make, isSome_node?_attach,
      Step.node?_store (numbered.fresh (by omega)), List.length_append, List.length_singleton]
    by_cases new : steps.length + 1 = id
    · intro _
      omega
    · rw [if_neg new]
      intro stored
      have bounds := numbered.only stored
      omega
  apart := by
    intro id complete
    rw [numbered.mem_contextNodes_make]
    rw [numbered.mem_astNodes_make] at complete
    by_cases new : id = steps.length + 1
    · rw [if_pos new]
      rcases complete with ⟨-, hasPayload⟩ | old
      · rw [Option.isSome_iff_ne_none] at hasPayload
        exact hasPayload
      · have missing := numbered.fresh (by omega : steps.length < id)
        unfold Graph.node? at missing
        rw [Std.ExtTreeMap.mem_iff_isSome_getElem?] at old
        split at missing
        · cases missing
        · simp_all
    · rw [if_neg new]
      rcases complete with ⟨isNew, -⟩ | old
      · exact absurd isNew new
      · exact numbered.apart old
  childless := by
    intro id missing
    rw [numbered.graph_make, ← Option.not_isSome_iff_eq_none, isSome_node?_attach,
      Step.node?_store (numbered.fresh (by omega))] at missing
    by_cases new : steps.length + 1 = id
    · simp [new] at missing
    · rw [numbered.childIds_make (Ne.symm new)]
      exact numbered.childless (by simpa [new] using missing)

theorem perform (numbered : Numbered steps builder) (more : List Step) :
    Numbered (steps ++ more) (Builder.perform more builder) := by
  induction more generalizing steps builder with
  | nil =>
      rw [List.append_nil]
      exact numbered
  | cons first rest ih =>
      have whole := ih (numbered.next first)
      rw [List.append_assoc] at whole
      exact whole

theorem childIds_perform (numbered : Numbered steps builder) (old : id ≤ steps.length) :
    (Builder.perform more builder).graph.childIds id = builder.graph.childIds id := by
  induction more generalizing steps builder with
  | nil => rfl
  | cons first rest ih =>
      rw [perform_cons, ih (numbered.next first) (by simp; omega),
        numbered.childIds_make (by omega)]

theorem node?_perform (numbered : Numbered steps builder) (old : id ≤ steps.length)
    (spared : ∀ step ∈ more, id ∉ step.passed) :
    (Builder.perform more builder).graph.node? id = builder.graph.node? id := by
  induction more generalizing steps builder with
  | nil => rfl
  | cons first rest ih =>
      have restSpared := fun step member => spared step (List.mem_cons_of_mem first member)
      have notNew : steps.length + 1 ≠ id := by omega
      rw [perform_cons, ih (numbered.next first) (by simp; omega) restSpared,
        numbered.node?_make (spared first List.mem_cons_self), if_neg notNew]

theorem parentId?_perform (numbered : Numbered steps builder)
    (spared : ∀ step ∈ more, id ∉ step.passed) :
    (Builder.perform more builder).graph.parentId? id = builder.graph.parentId? id := by
  induction more generalizing steps builder with
  | nil => rfl
  | cons first rest ih =>
      have restSpared := fun step member => spared step (List.mem_cons_of_mem first member)
      rw [perform_cons, ih (numbered.next first) restSpared, numbered.parentId?_make,
        if_neg (spared first List.mem_cons_self)]

end Numbered

theorem numbered_perform (steps : List Step) : Numbered steps (perform steps .empty) := by
  have whole := Numbered.empty.perform steps
  rw [List.nil_append] at whole
  exact whole

end Builder

/-- The node of a step stands in the graph and is the parent of its children, which are in slots of
their own and in the given order. -/
structure Graph.Written (graph : Graph) (id : NodeId) (step : Builder.Step) : Prop where
  node : ∃ slot, graph.node? id = some (step.node id slot)
  sorted : step.children.Pairwise (·.1 < ·.1)
  listed : graph.childIds id = step.passed
  slotted : ∀ {place}, place ∈ step.children → graph.slotOf place.2 = some place.1
  linked : ∀ {place}, place ∈ step.children → graph.parentId? place.2 = some id

namespace Builder

variable {before later : List Step} {step : Step} {id : Nat}

theorem exists_split {steps : List Step} {index : Nat} (isStep : steps[index]? = some step) :
    ∃ before later, steps = before ++ step :: later ∧ before.length = index := by
  obtain ⟨bounded, rfl⟩ := List.getElem?_eq_some_iff.mp isStep
  refine ⟨steps.take index, steps.drop (index + 1), ?_, by simp; omega⟩
  rw [← List.drop_eq_getElem_cons bounded, List.take_append_drop]

structure Lasting (before : List Step) (step : Step) (later : List Step) : Prop where
  existing : ∀ {id : Nat}, id ∈ step.passed → 0 < id ∧ id ≤ before.length
  distinct : step.passed.Nodup
  spared : ∀ next ∈ later, ∀ id ∈ next.passed, id ∉ step.passed

namespace Lasting

theorem stored (lasting : Lasting before step later) :
    ∀ id ∈ step.children.map (·.2),
      ((step.store (perform before .empty).graph (before.length + 1)).node? id).isSome := by
  intro id member
  have numbered := numbered_perform before
  have bounds := lasting.existing member
  have notNew : before.length + 1 ≠ id := by omega
  rw [Step.node?_store (numbered.fresh (by omega)), if_neg notNew]
  exact numbered.stored_iff.mpr bounds

theorem childless (_ : Lasting before step later) :
    (step.store (perform before .empty).graph (before.length + 1)).childIds
      (before.length + 1) = [] := by
  have numbered := numbered_perform before
  rw [Graph.childIds, Step.store_links.2, ← Graph.childIds]
  exact numbered.childless (numbered.fresh (by omega))

theorem kept (lasting : Lasting before step later) (passed : id ∈ step.passed) :
    (perform (before ++ step :: later) .empty).graph.node? id =
      (step.make (perform before .empty)).2.graph.node? id := by
  have bounds := lasting.existing passed
  rw [perform_append, perform_cons]
  exact ((numbered_perform before).next step).node?_perform (by simp; omega)
    fun next isNext again => lasting.spared next isNext _ again passed

theorem slotOf_eq (lasting : Lasting before step later) {place : Nat × NodeId}
    (member : place ∈ step.children) :
    (perform (before ++ step :: later) .empty).graph.slotOf place.2 = some place.1 := by
  rw [Graph.slotOf, lasting.kept (List.mem_map_of_mem member), ← Graph.slotOf,
    (numbered_perform before).graph_make]
  exact slotOf_attach_of_mem lasting.distinct lasting.stored member

theorem childIds_eq (_ : Lasting before step later) :
    (perform (before ++ step :: later) .empty).graph.childIds (before.length + 1) =
      (step.make (perform before .empty)).2.graph.childIds (before.length + 1) := by
  rw [perform_append, perform_cons]
  exact ((numbered_perform before).next step).childIds_perform (by simp)

theorem parentId?_eq (lasting : Lasting before step later) (passed : id ∈ step.passed) :
    (perform (before ++ step :: later) .empty).graph.parentId? id = some (before.length + 1) := by
  have numbered := (numbered_perform before).next step
  rw [perform_append, perform_cons, numbered.parentId?_perform fun next isNext again =>
    lasting.spared next isNext id again passed]
  rw [(numbered_perform before).parentId?_make, if_pos passed]

theorem lists (lasting : Lasting before step later) :
    (perform (before ++ step :: later) .empty).graph.Lists (before.length + 1) step.children := by
  have made : (step.make (perform before .empty)).2.graph.Lists (before.length + 1)
      step.children := by
    rw [(numbered_perform before).graph_make]
    exact lists_attach lasting.childless lasting.distinct lasting.stored
  apply made.congr lasting.childIds_eq
  intro id member
  rw [Graph.slotOf, lasting.kept (made.members.mem_iff.mp member), ← Graph.slotOf]

theorem written (lasting : Lasting before step later)
    (sorted : step.children.Pairwise (·.1 < ·.1)) :
    (perform (before ++ step :: later) .empty).graph.Written (before.length + 1) step := by
  constructor
  · exact (numbered_perform (before ++ step :: later)).made (by simp)
  · exact sorted
  · rw [lasting.childIds_eq, (numbered_perform before).graph_make]
    exact childIds_attach_sorted lasting.childless lasting.distinct lasting.stored
      (sorted.imp Nat.le_of_lt)
  · exact lasting.slotOf_eq
  · exact fun member => lasting.parentId?_eq (List.mem_map_of_mem member)

end Lasting

end Builder

end FormulaInspection
