import FormulaInspection.Cutoff
import FormulaInspection.Graph.Signature
import FormulaInspection.NameMap
import FormulaInspection.Scope.Item

/-!
Scope resolution. To resolve a node, its ancestry is walked from the root down, and every node on
the way gets the scope of its parent to start from. The constructs that bind names extend the
scopes of the nodes that see them: the body of an `each` sees `_`, the body of a function its
parameters, the body of a `let` all bindings, and a value in a `let`, record or section its
siblings, and itself under `@`.

Scopes resolved earlier are read from given layers, which are never written. What a walk has
written before it fails stays in its delta.
-/

namespace FormulaInspection

structure Resolver where
  graph : Graph
  given : List Scopes

structure Resolution where
  delta : Scopes
  cancellation : Cancellation

structure Visit where
  delta : Scopes
  failure? : Option InspectionError

def KeyValuePair.scopeItem (pair : KeyValuePair) (isSection isRecursive : Bool) : ScopeItem :=
  if isSection then
    .sectionMember pair.key pair.keyNode.id (pair.value?.map Node.id) isRecursive
  else .keyValuePair pair.key pair.keyNode.id (pair.value?.map Node.id) isRecursive

/-- What the value of a pair sees of all the pairs beside it: the others by their keys, and itself
by `@key`. -/
def KeyValuePair.siblingItems (pair : KeyValuePair) (pairs : List KeyValuePair)
    (isSection : Bool) : Scope :=
  pairs.map fun other =>
    if other.key = pair.key then ("@" ++ pair.key, pair.scopeItem isSection true)
    else (other.key, other.scopeItem isSection false)

def ParameterSignature.scopeItem (parameter : ParameterSignature) : ScopeItem :=
  .parameter parameter.id parameter.name parameter.isNullable parameter.isOptional
    parameter.declared?

namespace Resolver

def given? (resolver : Resolver) (id : NodeId) : Option Scope :=
  resolver.given.findSome? fun layer => layer[id]?

/-- The scope a node starts from: the given one, else the default, else that of its parent. -/
def initialScope (resolver : Resolver) (delta : Scopes) (id : NodeId) (default? : Option Scope) :
    Scope :=
  match resolver.given? id with
  | some scope => scope
  | none =>
    match default? with
    | some scope => scope
    | none =>
      match resolver.graph.parentId? id with
      | some parent => (delta[parent]?.or (resolver.given? parent)).getD []
      | none => []

def currentScope (resolver : Resolver) (delta : Scopes) (id : NodeId) (default? : Option Scope) :
    Scope :=
  delta[id]?.getD (resolver.initialScope delta id default?)

def touch (resolver : Resolver) (delta : Scopes) (id : NodeId) : Scopes :=
  delta.insert id (resolver.currentScope delta id none)

def expand (resolver : Resolver) (delta : Scopes) (id : NodeId) (items default : Scope) : Scopes :=
  delta.insert id (NameMap.setAll (resolver.currentScope delta id (some default)) items)

def visitEach (resolver : Resolver) (each : Node) (delta : Scopes) : Visit :=
  let scope := resolver.currentScope delta each.id none
  let delta := resolver.touch delta each.id
  match resolver.graph.requiredChild? each Slot.eachBody with
  | .error failure => ⟨delta, some failure⟩
  | .ok none => ⟨delta, none⟩
  | .ok (some body) => ⟨resolver.expand delta body.id [("_", .each each.id)] scope, none⟩

def visitFunction (resolver : Resolver) (function : Node) (delta : Scopes) : Visit :=
  let scope := resolver.currentScope delta function.id none
  let delta := resolver.touch delta function.id
  match resolver.graph.requiredChild? function Slot.functionBody with
  | .error failure => ⟨delta, some failure⟩
  | .ok none => ⟨delta, none⟩
  | .ok (some body) =>
    match resolver.graph.functionSignature function with
    | .error failure => ⟨delta, some failure⟩
    | .ok signature =>
      let items := signature.parameters.map fun parameter => (parameter.name, parameter.scopeItem)
      ⟨resolver.expand delta body.id items scope, none⟩

def expandValues (resolver : Resolver) (scope : Scope) (pairs : List KeyValuePair)
    (isSection : Bool) (delta : Scopes) : Scopes :=
  pairs.foldl
    (fun delta pair =>
      match pair.value? with
      | some value =>
        resolver.expand delta value.id (pair.siblingItems pairs isSection) scope
      | none => delta)
    delta

def visitPairs (resolver : Resolver) (owner : Node) (pairs : List KeyValuePair) (isSection : Bool)
    (delta : Scopes) : Scopes :=
  let scope := resolver.currentScope delta owner.id none
  resolver.expandValues scope pairs isSection (resolver.touch delta owner.id)

/-- On the way to its body a `let` binds all of its names there; on the way to a binding the values
see each other. -/
def visitLet (resolver : Resolver) (letNode : Node) (next? : Option Node)
    (pairs : List KeyValuePair) (delta : Scopes) : Scopes :=
  match next?.filter fun next => next.slot == some Slot.letBody with
  | some body =>
    let scope := resolver.currentScope delta letNode.id none
    let items := pairs.map fun pair => (pair.key, pair.scopeItem false false)
    resolver.expand (resolver.touch delta letNode.id) body.id items scope
  | none => resolver.visitPairs letNode pairs false delta

def visit (resolver : Resolver) (node : Node) (next? : Option Node) (delta : Scopes) : Visit :=
  match node.kind with
  | .eachExpression => resolver.visitEach node delta
  | .functionExpression => resolver.visitFunction node delta
  | .letExpression =>
    match resolver.graph.letPairs node with
    | .error failure => ⟨delta, some failure⟩
    | .ok pairs => ⟨resolver.visitLet node next? pairs delta, none⟩
  | .recordExpression | .recordLiteral =>
    match resolver.graph.recordPairs node with
    | .error failure => ⟨delta, some failure⟩
    | .ok pairs => ⟨resolver.visitPairs node pairs false delta, none⟩
  | .section =>
    match resolver.graph.sectionPairs node with
    | .error failure => ⟨delta, some failure⟩
    | .ok pairs => ⟨resolver.visitPairs node pairs true delta, none⟩
  | _ => ⟨resolver.touch delta node.id, none⟩

def walk (resolver : Resolver) :
    List Node → Resolution → Except InspectionError Unit × Resolution
  | [], state => (.ok (), state)
  | node :: rest, state =>
    match state.cancellation.poll with
    | .error failure => (.error failure, state)
    | .ok cancellation =>
      match resolver.visit node rest.head? state.delta with
      | ⟨delta, none⟩ => resolver.walk rest { delta, cancellation }
      | ⟨delta, some failure⟩ => (.error failure, { delta, cancellation })

def inspect (resolver : Resolver) (root : NodeId) (state : Resolution) :
    Except InspectionError Unit × Resolution :=
  match state.cancellation.poll with
  | .error failure => (.error failure, state)
  | .ok cancellation =>
    let state := { state with cancellation }
    if state.delta.contains root || (resolver.given? root).isSome then (.ok (), state)
    else
      match resolver.graph.ancestry root with
      | .error failure => (.error failure, state)
      | .ok path => resolver.walk path.reverse state

end Resolver

/-- The scopes of a node and of the nodes above it, added to those given. Nothing is done, and the
host not polled, when the node is among the given ones. -/
def resolveScope (graph : Graph) (root : NodeId) (given? : Option Scopes)
    (cancellation : Cancellation) : Except InspectionError Scopes × Cancellation :=
  let given := given?.getD ∅
  if given.contains root then (.ok given, cancellation)
  else
    match Resolver.inspect ⟨graph, given?.toList⟩ root ⟨∅, cancellation⟩ with
    | (.ok (), state) => (.ok (given ∪ state.delta), state.cancellation)
    | (.error failure, state) => (.error failure, state.cancellation)

/-- What a request comes to: its answer, and the cache and the polls that are left to the host
whether or not it is a failure. -/
structure Served (Cache Value : Type) where
  answer : Except InspectionError Value
  cache : Cache
  cancellation : Cancellation

def resolveScopeInto (graph : Graph) (root : NodeId) (cache : Scopes)
    (cancellation : Cancellation) : Served Scopes Unit :=
  match Resolver.inspect ⟨graph, [cache]⟩ root ⟨∅, cancellation⟩ with
  | (.ok (), state) => ⟨.ok (), cache ∪ state.delta, state.cancellation⟩
  | (.error failure, state) => ⟨.error failure, cache, state.cancellation⟩

end FormulaInspection
