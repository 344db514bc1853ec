import FormulaInspection.Ty.Basic

/-!
Types that a formula declares, and what they allow.
-/

namespace FormulaInspection

def PrimitiveName.declared (primitive : PrimitiveName) (isNullable : Bool) : Ty :=
  .primitive primitive.kind (isNullable || primitive.kind.isNullableByDefault)

def parameterType (declared? : Option PrimitiveName) (isNullable isOptional : Bool) : Ty :=
  match declared? with
  | some primitive => primitive.declared (isNullable || isOptional)
  | none => .any

namespace Ty

def isCondition (ty : Ty) : Bool :=
  match ty with
  | .union members _ => members.all fun member => member.kind == .logical || member.isAny
  | _ => ty.kind == .logical || ty.kind == .any || ty.kind == .unknown

/-- The return type of a function from its declared type and the type of its body, or nothing when
they contradict each other. -/
def reconcile (declared body : Ty) : Option Ty :=
  if declared.kind == .any then some body
  else if body.isUnknown || body.isAny then some declared
  else
    match body with
    | .union members _ =>
      if members.all fun member => member.isAny || member.kind == declared.kind then some body
      else none
    | _ => if body.kind == declared.kind then some body else none

end Ty

end FormulaInspection
