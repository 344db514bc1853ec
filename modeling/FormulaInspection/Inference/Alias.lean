import FormulaInspection.Grammar.Slot
import FormulaInspection.Graph.Basic
import FormulaInspection.Inference.Demand

/-!
Identifiers and what they stand for. A name may be bound to another name, so the chain of aliases
is followed to the item that says what its type is.
-/

namespace FormulaInspection

/-- A name as it is used: `name` or `@name`. -/
structure NameUse where
  name : String
  isInclusive : Bool
  deriving DecidableEq

def NameUse.key (use : NameUse) : String :=
  if use.isInclusive then "@" ++ use.name else use.name

inductive Meaning where
  | item (item : ScopeItem)
  | recursive
  deriving DecidableEq

namespace Graph

def nameUse? (graph : Graph) (node : Node) : Except InspectionError (Option NameUse) :=
  match node.kind with
  | .identifier => .ok (node.identifier?.map fun name => { name, isInclusive := false })
  | .identifierExpression => do
    let isInclusive ← graph.hasChild node.id Slot.inclusiveMark
    let nameNode? ← graph.child? node.id Slot.identifier (some [.identifier])
    return (nameNode?.bind Node.identifier?).map fun name => { name, isInclusive }
  | _ => .ok none

/-- Follows a chain of aliases from the use `use` at `current`. `first` is the node the chain
started from and `marked` whether it was written with `@`; all further uses have to agree. The
chain cannot be longer than the graph has nodes without coming back to one it has visited. -/
def followAliases (graph : Graph) (first : NodeId) (marked : Bool) :
    Nat → List NodeId → NodeId → NameUse → Demand Meaning
  | hopsLeft, visited, current, use => .poll do
    match ← Demand.askBinding current use.key with
    | none => return .item (.undefined first)
    | some item =>
      match item.boundValue? with
      | none => return .item item
      | some value =>
        let node ← graph.node value
        match ← graph.nameUse? node with
        | none => return .item item
        | some next =>
          if next.isInclusive != marked || visited.contains node.id then return .recursive
          else
            match hopsLeft with
            | 0 => return .recursive
            | hopsLeft + 1 =>
              graph.followAliases first marked hopsLeft (node.id :: visited) node.id next

def dereference (graph : Graph) (node : Node) : Demand Meaning := do
  match ← graph.nameUse? node with
  | none => return .item (.undefined node.id)
  | some use => graph.followAliases node.id use.isInclusive graph.size [node.id] node.id use

end Graph

end FormulaInspection
