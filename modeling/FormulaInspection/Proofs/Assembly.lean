import FormulaInspection.Proofs.Steps
import FormulaInspection.Proofs.TreeShape

/-!
Builders put together from smaller ones. A construct is given nodes, makes others, and attaches each
of them once apart from the ones that it hands on. A graph that shows what the steps of a construct
wrote can be read without knowing where in a larger building the construct was made.
-/

namespace FormulaInspection

structure Graph.Shows (graph : Graph) (last : Nat) (steps : List Builder.Step) : Prop where
  keyed : graph.Keyed
  written : ∀ {index : Nat} {step}, steps[index]? = some step →
    step.children.Pairwise (·.1 < ·.1) → graph.Written (last + index + 1) step

namespace Builder

variable {last : Nat} {pool given others left : List NodeId} {steps more : List Step} {step : Step}

theorem Shows.append {graph : Graph} (shows : graph.Shows last (steps ++ more)) :
    graph.Shows last steps ∧ graph.Shows (last + steps.length) more := by
  constructor
  · refine ⟨shows.keyed, fun isStep sorted => shows.written ?_ sorted⟩
    have bounded := (List.getElem?_eq_some_iff.mp isStep).1
    rw [List.getElem?_append_left bounded]
    exact isStep
  · refine ⟨shows.keyed, fun {index step} isStep sorted => ?_⟩
    have later : (steps ++ more)[steps.length + index]? = some step := by
      rw [List.getElem?_append_right (by omega), Nat.add_sub_cancel_left]
      exact isStep
    have written := shows.written later sorted
    rw [← Nat.add_assoc] at written
    exact written

/-- The steps attach every node of the pool and every node that they make exactly once, apart from
those that are left, and no node before it exists. -/
structure Consumes (last : Nat) (pool : List NodeId) (steps : List Step) (left : List NodeId) :
    Prop where
  balanced : (steps.flatMap Step.passed ++ left).Perm
    (pool ++ List.range' (last + 1) steps.length)
  existing : ∀ {index : Nat} {step}, steps[index]? = some step → ∀ {id : Nat}, id ∈ step.passed →
    id ∈ pool ∨ last < id ∧ id ≤ last + index

namespace Consumes

theorem nothing (kept : left.Perm pool) : Consumes last pool [] left where
  balanced := by simpa using kept
  existing := by simp

theorem single (kept : step.passed.Perm pool) : Consumes last pool [step] [last + 1] where
  balanced := by simpa using kept.append_right [last + 1]
  existing := by
    intro index made isMade id passed
    have same : made = step := by
      cases index with
      | zero => simpa using isMade.symm
      | succ index => simp at isMade
    subst same
    exact .inl (kept.mem_iff.mp passed)

theorem mem_left (consumes : Consumes last pool steps left) {id : Nat} (member : id ∈ left) :
    id ∈ pool ∨ last < id ∧ id ≤ last + steps.length := by
  have total := consumes.balanced.mem_iff.mp (List.mem_append_right _ member)
  rcases List.mem_append.mp total with inPool | isNew
  · exact .inl inPool
  · have bounds := List.mem_range'_1.mp isNew
    exact .inr (by omega)

theorem nodup (consumes : Consumes last pool steps left) (distinct : pool.Nodup)
    (old : ∀ id : Nat, id ∈ pool → id ≤ last) : (steps.flatMap Step.passed ++ left).Nodup := by
  rw [consumes.balanced.nodup_iff]
  refine List.nodup_append.mpr ⟨distinct, List.nodup_range', ?_⟩
  rintro id inPool other isNew rfl
  have bound := old id inPool
  have newBounds := List.mem_range'_1.mp isNew
  omega

theorem last_made {id : Nat} (consumes : Consumes last pool steps [id])
    (old : ∀ id : Nat, id ∈ pool → id ≤ last) (some : steps ≠ []) : id = last + steps.length := by
  have length := List.length_pos_of_ne_nil some
  have isMade : last + steps.length ∈ pool ++ List.range' (last + 1) steps.length :=
    List.mem_append_right _ (List.mem_range'_1.mpr (by omega))
  rcases List.mem_append.mp (consumes.balanced.mem_iff.mpr isMade) with passed | isLeft
  · obtain ⟨step, isStep, inside⟩ := List.mem_flatMap.mp passed
    obtain ⟨index, found⟩ := List.mem_iff_getElem?.mp isStep
    have indexBound := (List.getElem?_eq_some_iff.mp found).1
    rcases consumes.existing found inside with inPool | isNew
    · have bound := old _ inPool
      omega
    · omega
  · exact (List.mem_singleton.mp isLeft).symm

theorem append (first : Consumes last given steps left)
    {final : List NodeId} (second : Consumes (last + steps.length) (left ++ others) more final) :
    Consumes last (given ++ others) (steps ++ more) final where
  balanced := by
    have ids : List.range' (last + 1) (steps ++ more).length =
        List.range' (last + 1) steps.length ++
          List.range' (last + steps.length + 1) more.length := by
      rw [List.length_append, ← List.range'_append_1, Nat.add_right_comm]
    have firstBalanced := first.balanced
    have secondBalanced := second.balanced
    rw [ids, List.flatMap_append]
    rw [List.perm_iff_count] at *
    intro id
    have firstCount := firstBalanced id
    have secondCount := secondBalanced id
    simp only [List.count_append] at *
    omega
  existing := by
    intro index made isMade id passed
    by_cases early : index < steps.length
    · rw [List.getElem?_append_left early] at isMade
      rcases first.existing isMade passed with inGiven | isNew
      · exact .inl (List.mem_append_left _ inGiven)
      · exact .inr isNew
    · rw [List.getElem?_append_right (by omega)] at isMade
      rcases second.existing isMade passed with inPool | isNew
      · rcases List.mem_append.mp inPool with inLeft | inOthers
        · rcases first.mem_left inLeft with inGiven | isNew
          · exact .inl (List.mem_append_left _ inGiven)
          · exact .inr (by omega)
        · exact .inl (List.mem_append_right _ inOthers)
      · exact .inr (by omega)

theorem perm (consumes : Consumes last given steps left) (same : pool.Perm given) :
    Consumes last pool steps left where
  balanced := consumes.balanced.trans (same.symm.append_right _)
  existing := by
    intro index made isMade id passed
    rw [same.mem_iff]
    exact consumes.existing isMade passed

end Consumes

variable {α β : Type} {build : Build α} {next : α → Build β} {made : α → List NodeId}
  {final : β → List NodeId} {told told' : Graph → α → Prop} {later : Graph → β → Prop}

/-- Whatever was built before, the construct uses up the pool and hands on what it has made, and what
is told of it holds in every graph that shows its steps. -/
def Assembles (pool : List NodeId) (build : Build α) (made : α → List NodeId)
    (told : Graph → α → Prop) : Prop :=
  ∀ builder, ∃ steps, (build builder).2 = perform steps builder ∧
    Consumes builder.lastId pool steps (made (build builder).1) ∧
    ∀ graph : Graph, graph.Shows builder.lastId steps → told graph (build builder).1

abbrev Makes (pool : List NodeId) (build : Build NodeId) (told : Graph → NodeId → Prop) : Prop :=
  Assembles pool build (fun id => [id]) told

theorem Assembles.pure {value : α} (kept : (made value).Perm pool)
    (tells : ∀ graph, told graph value) : Assembles pool (pure value) made told :=
  fun _ => ⟨[], rfl, .nothing kept, fun graph _ => tells graph⟩

theorem Assembles.perm (assembles : Assembles given build made told) (same : pool.Perm given) :
    Assembles pool build made told := by
  intro builder
  obtain ⟨steps, performed, consumes, tells⟩ := assembles builder
  exact ⟨steps, performed, consumes.perm same, tells⟩

theorem Assembles.weaken (assembles : Assembles pool build made told)
    (implies : ∀ graph : Graph, graph.Keyed → ∀ value, told graph value → told' graph value) :
    Assembles pool build made told' := by
  intro builder
  obtain ⟨steps, performed, consumes, tells⟩ := assembles builder
  refine ⟨steps, performed, consumes, fun graph shows => ?_⟩
  exact implies graph shows.keyed _ (tells graph shows)

theorem Assembles.bind (first : Assembles given build made told)
    (rest : ∀ value, Assembles (made value ++ others) (next value) final
      fun graph result => told graph value → later graph result) :
    Assembles (given ++ others) (build >>= next) final later := by
  intro builder
  obtain ⟨steps, performed, consumes, tells⟩ := first builder
  obtain ⟨more, performedMore, consumesMore, tellsMore⟩ :=
    rest (build builder).1 (build builder).2
  have lastId : (build builder).2.lastId = builder.lastId + steps.length := by
    rw [performed, lastId_perform]
  rw [lastId] at consumesMore tellsMore
  refine ⟨steps ++ more, ?_, consumes.append consumesMore, ?_⟩
  · rw [perform_append, ← performed]
    exact performedMore
  · intro graph shows
    obtain ⟨showsFirst, showsMore⟩ := Shows.append shows
    exact tellsMore graph showsMore (tells graph showsFirst)

theorem Assembles.bindPart (arranged : pool.Perm (given ++ others))
    (first : Assembles given build made told)
    (rest : ∀ value, Assembles (made value ++ others) (next value) final
      fun graph result => told graph value → later graph result) :
    Assembles pool (build >>= next) final later :=
  (first.bind rest).perm arranged

theorem Assembles.bindNew (first : Assembles [] build made told)
    (rest : ∀ value, Assembles (made value ++ pool) (next value) final
      fun graph result => told graph value → later graph result) :
    Assembles pool (build >>= next) final later :=
  first.bind rest

theorem Assembles.bindAll (first : Assembles pool build made told)
    (rest : ∀ value, Assembles (made value) (next value) final
      fun graph result => told graph value → later graph result) :
    Assembles pool (build >>= next) final later := by
  have whole : Assembles (pool ++ []) (build >>= next) final later := first.bind fun value => by
    rw [List.append_nil]
    exact rest value
  rw [List.append_nil] at whole
  exact whole

theorem Assembles.cons {first : Build NodeId} {rest : Build (List NodeId)}
    {told : Graph → NodeId → Prop} {toldRest later : Graph → List NodeId → Prop}
    (firstMade : Makes given first told)
    (restMade : Assembles others rest (fun ids => ids) toldRest)
    (joined : ∀ graph id ids, told graph id → toldRest graph ids → later graph (id :: ids)) :
    Assembles (given ++ others) (do return (← first) :: (← rest)) (fun ids => ids) later := by
  apply firstMade.bind
  intro id
  apply Assembles.bindPart List.perm_append_comm restMade
  intro ids
  exact .pure (List.perm_append_singleton id ids).symm fun graph toldIds toldId =>
    joined graph id ids toldId toldIds

variable {kind : NodeKind} {payload : Payload} {children : List (Nat × NodeId)}

theorem Assembles.of_step {told : Graph → NodeId → Prop} (kept : step.passed.Perm pool)
    (tells : ∀ graph : Graph, graph.Keyed → ∀ id,
      (step.children.Pairwise (·.1 < ·.1) → graph.Written id step) → told graph id) :
    Makes pool step.make told := by
  intro builder
  refine ⟨[step], rfl, ?_, ?_⟩
  · rw [Step.make_eq]
    exact .single kept
  · intro graph shows
    have isFirst : [step][0]? = some step := rfl
    rw [Step.make_eq]
    exact tells graph shows.keyed _ fun sorted => shows.written isFirst sorted

theorem Assembles.ast {told : Graph → NodeId → Prop} (kept : (children.map (·.2)).Perm pool)
    (sorted : children.Pairwise (·.1 < ·.1))
    (tells : ∀ graph : Graph, graph.Keyed → ∀ id,
      graph.Written id ⟨kind, some payload, children⟩ → told graph id) :
    Makes pool (ast kind payload children) told :=
  @Assembles.of_step pool ⟨kind, some payload, children⟩ told kept fun graph keyed id written =>
    tells graph keyed id (written sorted)

end Builder

end FormulaInspection
