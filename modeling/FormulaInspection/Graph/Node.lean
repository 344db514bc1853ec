import FormulaInspection.Grammar.NodeKind
import FormulaInspection.Grammar.Token
import FormulaInspection.Graph.Id

/-!
Nodes of the graph. The parser leaves a complete node for what it has understood and a context node
for what it has begun and could not finish.
-/

namespace FormulaInspection

inductive Payload where
  | none
  | token (token : Token)
  | identifier (name : String)
  | literal (kind : LiteralKind) (text : String)
  | primitive (primitive : PrimitiveName)
  deriving DecidableEq, Inhabited

/-- A construct the parser has begun. `slot` is the place the node takes among the children of its
parent. -/
structure ContextNode where
  id : NodeId
  kind : NodeKind
  slot : Option Nat
  deriving DecidableEq, Inhabited

structure AstNode where
  id : NodeId
  kind : NodeKind
  slot : Option Nat
  payload : Payload
  deriving DecidableEq, Inhabited

inductive Node where
  | ast (node : AstNode)
  | context (node : ContextNode)
  deriving DecidableEq, Inhabited

namespace Node

def id : Node → NodeId
  | .ast node => node.id
  | .context node => node.id

def kind : Node → NodeKind
  | .ast node => node.kind
  | .context node => node.kind

def slot : Node → Option Nat
  | .ast node => node.slot
  | .context node => node.slot

def payload : Node → Payload
  | .ast node => node.payload
  | .context _ => .none

def isComplete : Node → Bool
  | .ast _ => true
  | .context _ => false

def token? (node : Node) : Option Token :=
  match node.payload with
  | .token token => some token
  | _ => none

def identifier? (node : Node) : Option String :=
  match node.payload with
  | .identifier name => some name
  | _ => none

def literal? (node : Node) : Option (LiteralKind × String) :=
  match node.payload with
  | .literal kind text => some (kind, text)
  | _ => none

def primitive? (node : Node) : Option PrimitiveName :=
  match node.payload with
  | .primitive primitive => some primitive
  | _ => none

def render : Node → String
  | .ast node => s!"{node.kind.name}#{node.id}"
  | .context node => s!"{node.kind.name}#{node.id} (context)"

end Node

end FormulaInspection
