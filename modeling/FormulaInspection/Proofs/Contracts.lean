import FormulaInspection.Inference.Demand

/-!
What can be said of a reading of the graph, and of a computation that asks questions, without
running it: which questions it asks, what it answers, and when it fails. A failure is put down to a
fault of the graph; where there is no fault, there is no failure.
-/

namespace FormulaInspection

def InspectionError.IsDefect : InspectionError → Prop
  | .missingNode _ | .missingChild _ _ | .unexpectedKind _ _ _ | .missingPayload _ _ => True
  | .missingScope _ | .depthExceeded _ _ | .cancelled => False

variable {α β : Type} {fault : Prop}

/-- A reading that gives a value with the property `post`, or fails for a fault of the graph. -/
def Meets (fault : Prop) (post : α → Prop) : Except InspectionError α → Prop
  | .ok value => post value
  | .error failure => fault ∧ failure.IsDefect

namespace Meets

variable {post : α → Prop} {later : β → Prop} {reading : Except InspectionError α}

theorem value {result : α} (meets : Meets fault post reading) (read : reading = .ok result) :
    post result := by
  subst read
  exact meets

theorem defect {failure : InspectionError} (meets : Meets fault post reading)
    (failed : reading = .error failure) : fault ∧ failure.IsDefect := by
  subst failed
  exact meets

theorem bind {next : α → Except InspectionError β} (first : Meets fault post reading)
    (rest : ∀ result, post result → Meets fault later (next result)) :
    Meets fault later (reading >>= next) := by
  cases reading with
  | ok result => exact rest result first
  | error failure => exact first

theorem map {change : α → β} (first : Meets fault post reading)
    (rest : ∀ result, post result → later (change result)) :
    Meets fault later (reading.map change) := by
  cases reading with
  | ok result => exact rest result first
  | error failure => exact first

theorem weaken {weaker : α → Prop} (first : Meets fault post reading)
    (implied : ∀ result, post result → weaker result) : Meets fault weaker reading := by
  cases reading with
  | ok result => exact implied result first
  | error failure => exact first

end Meets

structure Contract where
  fault : Prop
  asksType : Node → Prop
  asksBinding : NodeId → Prop
  tellsBinding : NodeId → String → Option ScopeItem → Prop

namespace Demand

/-- The computation asks only what the contract allows, answers with the property `post`, and fails
only for a fault. Of the types it is told nothing is assumed. -/
def Keeps (contract : Contract) (post : α → Prop) : Demand α → Prop
  | .answer value => post value
  | .fail failure => contract.fault ∧ failure.IsDefect
  | .typeOf node next => contract.asksType node ∧ ∀ ty, (next ty).Keeps contract post
  | .binding node name next =>
    contract.asksBinding node ∧
      ∀ item?, contract.tellsBinding node name item? → (next item?).Keeps contract post
  | .poll next => next.Keeps contract post

namespace Keeps

variable {contract : Contract} {post : α → Prop} {later : β → Prop}

theorem bind {demand : Demand α} {next : α → Demand β} (first : demand.Keeps contract post)
    (rest : ∀ value, post value → (next value).Keeps contract later) :
    (demand >>= next).Keeps contract later := by
  change (demand.bind next).Keeps contract later
  induction demand with
  | answer value => exact rest value first
  | fail failure => exact first
  | typeOf node onward ih => exact ⟨first.1, fun ty => ih ty (first.2 ty)⟩
  | binding node name onward ih =>
      exact ⟨first.1, fun item? told => ih item? (first.2 item? told)⟩
  | poll onward ih => exact ih first

theorem read {reading : Except InspectionError α} (meets : Meets contract.fault post reading) :
    (liftM reading : Demand α).Keeps contract post := by
  cases reading with
  | ok value => exact meets
  | error failure => exact meets

theorem askType {node : Node} (allowed : contract.asksType node) :
    (Demand.askType node).Keeps contract fun _ => True :=
  ⟨allowed, fun _ => trivial⟩

theorem askBinding {node : NodeId} {name : String} (allowed : contract.asksBinding node) :
    (Demand.askBinding node name).Keeps contract (contract.tellsBinding node name) :=
  ⟨allowed, fun _ told => told⟩

theorem askTypes {nodes : List Node} (allowed : ∀ node ∈ nodes, contract.asksType node) :
    (Demand.askTypes nodes).Keeps contract fun _ => True := by
  induction nodes with
  | nil => trivial
  | cons node rest ih =>
      refine bind (askType (allowed node (by simp))) fun ty _ => ?_
      refine bind (ih fun other member => allowed other (List.mem_cons_of_mem _ member)) ?_
      intro others _
      trivial

end Keeps

end Demand

end FormulaInspection
