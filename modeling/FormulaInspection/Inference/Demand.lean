import FormulaInspection.Error
import FormulaInspection.Graph.Node
import FormulaInspection.Scope.Item
import FormulaInspection.Ty.Basic

/-!
What a typing rule asks for. A rule never infers anything itself: it answers, fails, or asks a
question and says how it goes on with the answer. How questions are answered, and what is
remembered, is up to the evaluator.
-/

namespace FormulaInspection

inductive Demand (α : Type) where
  | answer (value : α)
  | fail (failure : InspectionError)
  | typeOf (node : Node) (next : Ty → Demand α)
  | binding (node : NodeId) (name : String) (next : Option ScopeItem → Demand α)
  | poll (next : Demand α)

namespace Demand

variable {α β : Type}

def bind : Demand α → (α → Demand β) → Demand β
  | .answer value, next => next value
  | .fail failure, _ => .fail failure
  | .typeOf node rest, next => .typeOf node fun ty => (rest ty).bind next
  | .binding node name rest, next => .binding node name fun item? => (rest item?).bind next
  | .poll rest, next => .poll (rest.bind next)

instance : Monad Demand where
  pure := .answer
  bind := .bind

def ofExcept : Except InspectionError α → Demand α
  | .ok value => .answer value
  | .error failure => .fail failure

instance : MonadLift (Except InspectionError) Demand := ⟨ofExcept⟩

def askType (node : Node) : Demand Ty :=
  .typeOf node .answer

def askBinding (node : NodeId) (name : String) : Demand (Option ScopeItem) :=
  .binding node name .answer

def askTypes : List Node → Demand (List Ty)
  | [] => .answer []
  | node :: rest => do
    let ty ← askType node
    let others ← askTypes rest
    return ty :: others

end Demand

end FormulaInspection
