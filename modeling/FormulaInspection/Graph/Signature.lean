import FormulaInspection.Graph.Listing

/-!
What a function expression or function type declares about its parameters and its result.
-/

namespace FormulaInspection

/-- A declared parameter. Without a declared type it takes any value, `null` included. -/
structure ParameterSignature where
  id : NodeId
  name : String
  isOptional : Bool
  isNullable : Bool
  declared? : Option PrimitiveName
  deriving DecidableEq

structure FunctionSignature where
  parameters : List ParameterSignature
  returnType? : Option (PrimitiveName × Bool)
  deriving DecidableEq

namespace Graph

/-- Reads `as primitive` or `as nullable primitive`. Other types and unfinished ascriptions declare
nothing. -/
def ascription? (graph : Graph) (ascription : Node) :
    Except InspectionError (Option (PrimitiveName × Bool)) := do
  checkKind ascription [.asNullablePrimitiveType, .asType]
  match ← graph.child? ascription.id Slot.paired with
  | none => return none
  | some paired =>
    match paired.kind with
    | .primitiveType => return paired.primitive?.map (·, false)
    | .nullablePrimitiveType | .nullableType =>
      match ← graph.child? paired.id Slot.paired with
      | some inner =>
        if inner.kind = .primitiveType then return inner.primitive?.map (·, true) else return none
      | none => return none
    | _ => return none

def ascriptionAt? (graph : Graph) (node : NodeId) (slot : Nat) :
    Except InspectionError (Option (PrimitiveName × Bool)) := do
  match ← graph.child? node slot with
  | some ascription => graph.ascription? ascription
  | none => return none

def parameterSignature? (graph : Graph) (parameter : Node) :
    Except InspectionError (Option ParameterSignature) := do
  checkKind parameter [.parameter]
  let nameNode? ← graph.child? parameter.id Slot.parameterName (some [.identifier])
  match nameNode?.bind Node.identifier? with
  | none => return none
  | some name =>
    let mark? ← graph.child? parameter.id Slot.parameterOptional
    let isOptional := mark?.any fun mark => mark.kind == .constant
    match ← graph.ascriptionAt? parameter.id Slot.parameterType with
    | some (primitive, isNullable) =>
      return some { id := parameter.id, name, isOptional, isNullable, declared? := some primitive }
    | none =>
      return some { id := parameter.id, name, isOptional, isNullable := true, declared? := none }

def parameterSignatures (graph : Graph) :
    List Node → Except InspectionError (List ParameterSignature)
  | [] => .ok []
  | parameter :: rest => do
    match ← graph.parameterSignature? parameter with
    | some signature => return signature :: (← graph.parameterSignatures rest)
    | none => graph.parameterSignatures rest

def parametersAt (graph : Graph) (function : Node) (slot : Nat) :
    Except InspectionError (List ParameterSignature) := do
  match ← graph.requiredChild? function slot (some [.parameterList]) with
  | none => return []
  | some list => graph.parameterSignatures (← graph.contentsAt list Slot.wrappedContent)

def signatureAt (graph : Graph) (function : Node) (parameters returnType : Nat) :
    Except InspectionError FunctionSignature := do
  let parameters ← graph.parametersAt function parameters
  let returnType? ← graph.ascriptionAt? function.id returnType
  return { parameters, returnType? }

def functionSignature (graph : Graph) (function : Node) :
    Except InspectionError FunctionSignature :=
  match function.kind with
  | .functionExpression =>
    graph.signatureAt function Slot.functionParameters Slot.functionReturnType
  | .functionType =>
    graph.signatureAt function Slot.functionTypeParameters Slot.functionTypeReturn
  | kind => .error (.unexpectedKind function.id [.functionExpression, .functionType] kind)

end Graph

end FormulaInspection
