import FormulaInspection.Ty.Equality

/-!
Disjunctions of types.
-/

namespace FormulaInspection.Ty

def alternatives : Ty → List Ty
  | .union members _ => members
  | ty => [ty]

def addNew (seen : List Ty) (ty : Ty) : List Ty :=
  if seen.any (fun other => other.same ty) then seen else seen ++ [ty]

def distinct (types : List Ty) : List Ty :=
  types.foldl addNew []

/-- One of the given types. Members that are unions are opened, repetitions dropped, and a single
type that remains stands for itself. -/
def oneOf (types : List Ty) : Ty :=
  match distinct (types.flatMap alternatives) with
  | [] => .none
  | [ty] => ty
  | members => .union members (members.any isNullable)

end FormulaInspection.Ty
