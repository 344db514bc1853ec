import FormulaInspection.Graph.Basic
import FormulaInspection.Json.Decode
import FormulaInspection.Json.Deferred
import FormulaInspection.Json.Reader

/-!
The JSON form in which a graph is stored. Writing puts down every field; reading takes a missing
slot or payload for none and passes over fields it does not know.
-/

namespace FormulaInspection

inductive PayloadTag where
  | none
  | token
  | identifier
  | literal
  | primitive
  deriving DecidableEq

def PayloadTag.ofName? (name : String) : Option PayloadTag :=
  if name = "None" then some .none
  else if name = "Constant" then some .token
  else if name = "Identifier" then some .identifier
  else if name = "Literal" then some .literal
  else if name = "PrimitiveType" then some .primitive
  else Option.none

namespace Payload

def toJson : Payload → Json
  | .none => .object [("type", .ofText "None")]
  | .token content => .object [("type", .ofText "Constant"), ("value", .ofText content.name)]
  | .identifier name => .object [("type", .ofText "Identifier"), ("value", .ofText name)]
  | .literal kind text =>
    .object
      [("type", .ofText "Literal"),
        ("value", .object [("kind", .ofText kind.name), ("literal", .ofText text)])]
  | .primitive content =>
    .object [("type", .ofText "PrimitiveType"), ("value", .ofText content.name)]

def literalOfJson? (reading : Json.Reading) (json : Json) : Option Payload := do
  match ← json.objectFields? ["kind", "literal"] with
  | [some kind, some text] =>
    return .literal (← kind.named? LiteralKind.ofName? reading) (← text.text?)
  | _ => failure

def ofContent? (reading : Json.Reading) : PayloadTag → Option Json → Option Payload
  | .none, Option.none => some .none
  | .none, some .null => some .none
  | .token, some content => (content.named? Token.ofName? reading).map .token
  | .identifier, some content => content.text?.map .identifier
  | .literal, some content => literalOfJson? reading content
  | .primitive, some content =>
    (content.named? PrimitiveName.ofName? reading).map .primitive
  | _, _ => Option.none

/-- How many levels of nesting a content may have that stands before its sort: a text is nested 127
levels at most, and four of them lead to the content. -/
def deferredLevels : Nat := 123

def isContentFirst (members : List (String × Json)) : Bool :=
  match members.find? fun member => member.1 == "type" || member.1 == "value" with
  | some (key, _) => key == "value"
  | Option.none => false

def ofMembers? (members : List (String × Json)) : Option Payload := do
  let content? ← Json.member? members "value"
  match ← Json.member? members "type" with
  | Option.none => failure
  | some tag =>
    let tag ← tag.named? PayloadTag.ofName?
    if isContentFirst members then
      guard (content?.all (Json.isDeferrable deferredLevels))
      ofContent? .deferred tag content?
    else ofContent? .direct tag content?

/-- A payload is an object with its sort and its content, or the array of both. In the array the
sort is written as a plain name. -/
def ofJson? : Json → Option Payload
  | .array [tag, content] => do
    ofContent? .direct (← PayloadTag.ofName? (← tag.text?)) (some content)
  | .object members => do ofMembers? (← Json.readMembers? members)
  | _ => Option.none

end Payload

def slotOfJson? : Option Json → Option (Option Nat)
  | none => some none
  | some json => json.nullable? Json.nat32?

namespace ContextNode

def toJson (node : ContextNode) : Json :=
  .object
    [("id", .ofNat node.id), ("kind", .ofText node.kind.name),
      ("maybe_attribute_index", .ofOption .ofNat node.slot)]

def ofJson? (json : Json) : Option ContextNode := do
  match ← json.structFields? ["id", "kind", "maybe_attribute_index"] 0 with
  | [some id, some kind, slot] =>
    return {
      id := ← id.nat32?
      kind := ← kind.named? NodeKind.ofName?
      slot := ← slotOfJson? slot }
  | _ => none

end ContextNode

namespace AstNode

def toJson (node : AstNode) : Json :=
  .object
    [("id", .ofNat node.id), ("kind", .ofText node.kind.name),
      ("maybe_attribute_index", .ofOption .ofNat node.slot), ("payload", node.payload.toJson)]

def payloadOfJson? : Option Json → Option Payload
  | none => some .none
  | some json => Payload.ofJson? json

def ofJson? (json : Json) : Option AstNode := do
  match ← json.structFields? ["id", "kind", "maybe_attribute_index", "payload"] 1 with
  | [some id, some kind, slot, payload] =>
    return {
      id := ← id.nat32?
      kind := ← kind.named? NodeKind.ofName?
      slot := ← slotOfJson? slot
      payload := ← payloadOfJson? payload }
  | _ => none

end AstNode

namespace Graph

def toJson (graph : Graph) : Json :=
  .object
    [("ast_node_by_id", .ofIdMap AstNode.toJson graph.astNodes),
      ("context_node_by_id", .ofIdMap ContextNode.toJson graph.contextNodes),
      ("parent_id_by_id", .ofIdMap .ofNat graph.parents),
      ("child_ids_by_id", .ofIdMap (.ofList .ofNat) graph.children),
      ("leaf_node_ids", .ofList .ofNat graph.leaves.toList)]

def ofJson? (json : Json) : Option Graph := do
  match ← json.structFields?
      ["ast_node_by_id", "context_node_by_id", "parent_id_by_id", "child_ids_by_id",
        "leaf_node_ids"] 0 with
  | [some astNodes, some contextNodes, some parents, some children, some leaves] =>
    return {
      astNodes := ← astNodes.idMap? AstNode.ofJson?
      contextNodes := ← contextNodes.idMap? ContextNode.ofJson?
      parents := ← parents.idMap? Json.nat32?
      children := ← children.idMap? (Json.listOf? Json.nat32?)
      leaves := .ofList (← leaves.listOf? Json.nat32?) }
  | _ => none

def parse? (text : String) : Option Graph :=
  (Json.parse? text).bind ofJson?

end Graph

end FormulaInspection
