import FormulaInspection.NameMap
import FormulaInspection.Ty.Basic

/-!
What `&` makes of two lists, two records or two tables.
-/

namespace FormulaInspection.Ty

def knownFields? : Ty → Option (List (String × Ty))
  | .record fields _ _ | .table fields _ _ => some fields
  | _ => none

def combinedFields? (left right : Ty) : Option (List (String × Ty)) :=
  match left.knownFields?, right.knownFields? with
  | none, none => none
  | some fields, none => some fields
  | none, some fields => some fields
  | some fields, some fields' => some (NameMap.setAll fields fields')

/-- The combination of two types of one kind. It is open, since an operand may bring fields that
are not known, and nullable only when both operands are. -/
def combine (left right : Ty) : Ty :=
  let isNullable := left.isNullable && right.isNullable
  if left.kind != right.kind then .none
  else
    match left.kind with
    | .list =>
      match left, right with
      | .list elements _, .list elements' _ => .list (elements ++ elements') isNullable
      | _, _ => .primitive .list isNullable
    | .record =>
      match combinedFields? left right with
      | some fields => .record fields true isNullable
      | none => .primitive .record isNullable
    | .table =>
      match combinedFields? left right with
      | some fields => .table fields true isNullable
      | none => .primitive .table isNullable
    | _ => .none

end FormulaInspection.Ty
