import FormulaInspection.Grammar.Token
import FormulaInspection.Graph.Id
import FormulaInspection.Json.Decode

/-!
Scopes: what each name means at a node.
-/

namespace FormulaInspection

inductive ScopeItem where
  | each (expression : NodeId)
  | parameter (node : NodeId) (name : String) (isNullable isOptional : Bool)
      (declared? : Option PrimitiveName)
  /-- A `let` binding or a record field. It is recursive where it is bound as `@key`, inside its own
  value. -/
  | keyValuePair (key : String) (keyNode : NodeId) (value? : Option NodeId) (isRecursive : Bool)
  | sectionMember (key : String) (keyNode : NodeId) (value? : Option NodeId) (isRecursive : Bool)
  /-- The answer for a name that is not bound. No scope holds it. -/
  | undefined (node : NodeId)
  deriving DecidableEq

namespace ScopeItem

def boundValue? : ScopeItem → Option NodeId
  | .keyValuePair _ _ value? _ | .sectionMember _ _ value? _ => value?
  | _ => none

def isRecursive : ScopeItem → Bool
  | .keyValuePair _ _ _ isRecursive | .sectionMember _ _ _ isRecursive => isRecursive
  | _ => false

def isEach : ScopeItem → Bool
  | .each _ => true
  | _ => false

def toJson : ScopeItem → Json
  | .each expression => .object [("kind", .ofText "Each"), ("each_expression", .ofNat expression)]
  | .parameter node name isNullable isOptional declared? =>
    .object
      [("kind", .ofText "Parameter"), ("node", .ofNat node), ("name", .ofText name),
        ("is_nullable", .bool isNullable), ("is_optional", .bool isOptional),
        ("maybe_type", .ofOption (fun primitive => .ofText primitive.name) declared?)]
  | .keyValuePair key keyNode value? isRecursive =>
    .object
      [("kind", .ofText "KeyValuePair"), ("key", .ofText key), ("key_node", .ofNat keyNode),
        ("maybe_value", .ofOption .ofNat value?), ("is_recursive", .bool isRecursive)]
  | .sectionMember key keyNode value? isRecursive =>
    .object
      [("kind", .ofText "SectionMember"), ("key", .ofText key), ("key_node", .ofNat keyNode),
        ("maybe_value", .ofOption .ofNat value?), ("is_recursive", .bool isRecursive)]
  | .undefined node => .object [("kind", .ofText "Undefined"), ("node", .ofNat node)]

end ScopeItem

/-- The names visible at a node in the order in which they were first bound. -/
abbrev Scope := List (String × ScopeItem)

abbrev Scopes := IdMap Scope

def Scope.toJson (scope : Scope) : Json :=
  .object (scope.map fun entry => (Json.escape entry.1, entry.2.toJson))

end FormulaInspection
