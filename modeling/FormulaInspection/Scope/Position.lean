import FormulaInspection.Grammar.Slot
import FormulaInspection.Graph.Basic
import FormulaInspection.Scope.Item

/-!
Scopes as seen from a position. The node in the body slot of an `each` is where `_` gets its
meaning, so it does not see that `_` itself.
-/

namespace FormulaInspection

def visibleAt (graph : Graph) (node : Node) (scope : Scope) : Scope :=
  if node.slot = some Slot.eachBody then
    match graph.parentId? node.id with
    | some parent => scope.filter fun entry => entry.2 != .each parent
    | none => scope
  else scope

/-- The scopes with those of the nodes on a path cut down to what is visible there. Every node on
the path has to have one, and keeps it even when nothing is left in it. -/
def filterByPosition (graph : Graph) (scopes : Scopes) :
    List Node → Except InspectionError Scopes
  | [] => .ok scopes
  | node :: rest =>
    match scopes[node.id]? with
    | some scope =>
      filterByPosition graph (scopes.insert node.id (visibleAt graph node scope)) rest
    | none => .error (.missingScope node.id)

end FormulaInspection
