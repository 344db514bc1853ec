import FormulaInspection.Error
import FormulaInspection.Graph.Node
import Std.Data.ExtTreeSet

/-!
The node graph: complete and context nodes by id, the parent and the children of each, and the
leaves. Nothing forces the tables to agree with each other, so every way of reading them says what
it makes of a missing node.
-/

namespace FormulaInspection

structure Graph where
  astNodes : IdMap AstNode
  contextNodes : IdMap ContextNode
  parents : IdMap NodeId
  children : IdMap (List NodeId)
  leaves : Std.ExtTreeSet NodeId

namespace Graph

def empty : Graph :=
  { astNodes := ∅, contextNodes := ∅, parents := ∅, children := ∅, leaves := ∅ }

instance : Inhabited Graph := ⟨empty⟩

def isSame (graph other : Graph) : Bool :=
  graph.astNodes == other.astNodes && graph.contextNodes == other.contextNodes &&
    graph.parents == other.parents && graph.children == other.children &&
    graph.leaves == other.leaves

/-- Stores a complete node, which takes the place of a context node of its id. -/
def insertAst (graph : Graph) (node : AstNode) : Graph :=
  { graph with
    contextNodes := graph.contextNodes.erase node.id
    astNodes := graph.astNodes.insert node.id node }

def insertContext (graph : Graph) (node : ContextNode) : Graph :=
  { graph with contextNodes := graph.contextNodes.insert node.id node }

def setSlot (graph : Graph) (id : NodeId) (slot : Nat) : Graph :=
  match graph.astNodes[id]? with
  | some node => { graph with astNodes := graph.astNodes.insert id { node with slot := some slot } }
  | none =>
    match graph.contextNodes[id]? with
    | some node =>
      { graph with contextNodes := graph.contextNodes.insert id { node with slot := some slot } }
    | none => graph

def markLeaf (graph : Graph) (id : NodeId) : Graph :=
  { graph with leaves := graph.leaves.insert id }

def size (graph : Graph) : Nat :=
  graph.astNodes.size + graph.contextNodes.size

def ids (graph : Graph) : List NodeId :=
  ((graph.astNodes.map fun _ _ => ()) ∪ (graph.contextNodes.map fun _ _ => ())).keys

def node? (graph : Graph) (id : NodeId) : Option Node :=
  match graph.astNodes[id]? with
  | some node => some (.ast node)
  | none => graph.contextNodes[id]?.map .context

def node (graph : Graph) (id : NodeId) : Except InspectionError Node :=
  match graph.node? id with
  | some node => .ok node
  | none => .error (.missingNode id)

def parentId? (graph : Graph) (id : NodeId) : Option NodeId :=
  graph.parents[id]?

def parent? (graph : Graph) (id : NodeId) : Except InspectionError (Option Node) :=
  match graph.parentId? id with
  | some parent => (graph.node parent).map some
  | none => .ok none

def childIds (graph : Graph) (id : NodeId) : List NodeId :=
  graph.children[id]?.getD []

def nodes (graph : Graph) : List NodeId → Except InspectionError (List Node)
  | [] => .ok []
  | id :: rest => do
    let node ← graph.node id
    return node :: (← graph.nodes rest)

def childNodes (graph : Graph) (id : NodeId) : Except InspectionError (List Node) :=
  graph.nodes (graph.childIds id)

/-- The place of a node among its siblings. A node without a slot comes before all others. -/
def slotOf (graph : Graph) (id : NodeId) : Option Nat :=
  (graph.node? id).bind Node.slot

def slotAfter : Option Nat → Option Nat → Bool
  | some slot, some other => other < slot
  | some _, none => true
  | none, _ => false

def insertChild (graph : Graph) (child : NodeId) : List NodeId → List NodeId
  | [] => [child]
  | sibling :: rest =>
    if slotAfter (graph.slotOf sibling) (graph.slotOf child) then child :: sibling :: rest
    else sibling :: graph.insertChild child rest

def link (graph : Graph) (parent child : NodeId) : Graph :=
  { graph with
    parents := graph.parents.insert child parent
    children := graph.children.insert parent (graph.insertChild child (graph.childIds parent)) }

def findInSlot (graph : Graph) (slot : Nat) (allowed : Option (List NodeKind)) :
    List NodeId → Except InspectionError (Option Node)
  | [] => .ok none
  | id :: rest => do
    let child ← graph.node id
    if child.slot ≠ some slot then graph.findInSlot slot allowed rest
    else
      match allowed with
      | none => .ok (some child)
      | some kinds =>
        if kinds.contains child.kind then .ok (some child)
        else .error (.unexpectedKind child.id kinds child.kind)

def child? (graph : Graph) (parent : NodeId) (slot : Nat)
    (allowed : Option (List NodeKind) := none) : Except InspectionError (Option Node) :=
  graph.findInSlot slot allowed (graph.childIds parent)

def child (graph : Graph) (parent : NodeId) (slot : Nat)
    (allowed : Option (List NodeKind) := none) : Except InspectionError Node := do
  match ← graph.child? parent slot allowed with
  | some child => .ok child
  | none => .error (.missingChild parent slot)

/-- A child that a complete node has to have. A context node may not have come to it yet. -/
def requiredChild? (graph : Graph) (parent : Node) (slot : Nat)
    (allowed : Option (List NodeKind) := none) : Except InspectionError (Option Node) :=
  match parent with
  | .ast _ => (graph.child parent.id slot allowed).map some
  | .context _ => graph.child? parent.id slot allowed

def hasChild (graph : Graph) (parent : NodeId) (slot : Nat) : Except InspectionError Bool :=
  (graph.child? parent slot).map Option.isSome

/-- The nodes above a node, nearest first. With as many steps left as the graph has nodes, only a
loop of parent links can use them up. -/
def nodesAbove (graph : Graph) : Nat → NodeId → Except InspectionError (List Node)
  | stepsLeft, id =>
    match graph.parentId? id with
    | none => .ok []
    | some parent =>
      match stepsLeft with
      | 0 => .error (.missingNode parent)
      | stepsLeft + 1 => do
        let node ← graph.node parent
        return node :: (← graph.nodesAbove stepsLeft parent)

def ancestry (graph : Graph) (id : NodeId) : Except InspectionError (List Node) := do
  let node ← graph.node id
  return node :: (← graph.nodesAbove graph.size id)

def isLeaf (graph : Graph) (id : NodeId) : Bool :=
  graph.leaves.contains id

end Graph

end FormulaInspection
