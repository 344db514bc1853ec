import FormulaInspection.NameMap
import FormulaInspection.Ty.Union

/-!
The types of what is taken out of a value: the result of a call, a field, a choice of fields, an
item. What is not known yet stays unknown, and taking something out of `any` gives `any`.
-/

namespace FormulaInspection.Ty

/-- The type of a call. A function whose result is not known yet may return anything. -/
def call (callee : Ty) : Ty :=
  if callee.isUnknown then .unknown
  else
    match callee with
    | .function _ result _ => if result.isUnknown then .any else result
    | .union .. => .any
    | .primitive .any _ | .primitive .function _ => .any
    | _ => .none

/-- The type of a field that may be missing: an open type leaves it to the value, and optional
access answers `null`. -/
def fieldOr? (fields : List (String × Ty)) (isOpen isOptional : Bool) (name : String) : Option Ty :=
  match NameMap.get? fields name with
  | some ty => some ty
  | none => if isOpen then some .any else if isOptional then some .null else none

def selectField (base : Ty) (name : String) (isOptional : Bool) : Ty :=
  if base.isUnknown then .unknown
  else if base.kind == .any then .any
  else
    match base with
    | .record fields isOpen _ | .table fields isOpen _ =>
      (fieldOr? fields isOpen isOptional name).getD .none
    | .primitive .record _ | .primitive .table _ => .any
    | _ => .none

def chosenFields? (fields : List (String × Ty)) (isOpen isOptional : Bool) :
    List String → List (String × Ty) → Option (List (String × Ty))
  | [], chosen => some chosen
  | name :: rest, chosen =>
    match fieldOr? fields isOpen isOptional name with
    | some ty => chosenFields? fields isOpen isOptional rest (NameMap.set chosen name ty)
    | none => none

def projectFields (base : Ty) (names : List String) (isOptional : Bool) : Ty :=
  if base.isUnknown then .unknown
  else if base.kind == .any then .any
  else
    match base with
    | .record fields isOpen _ =>
      match chosenFields? fields isOpen isOptional names [] with
      | some chosen => .record chosen false false
      | none => .none
    | .table fields isOpen _ =>
      match chosenFields? fields isOpen isOptional names [] with
      | some chosen => .table chosen false false
      | none => .none
    | .primitive .record _ | .primitive .table _ => base
    | _ => .none

/-- The type of one item: an element of a list or a row of a table. Without a literal index a list
gives any of its elements. -/
def itemType (base : Ty) (index? : Option Nat) (isOptional : Bool) : Ty :=
  match base with
  | .list elements _ =>
    match index? with
    | some index => elements[index]?.getD (if isOptional then .null else .none)
    | none => oneOf elements
  | .primitive .list _ => .any
  | .table fields isOpen _ => .record fields isOpen false
  | .primitive .table _ => .of .record
  | _ => .none

def accessItem (base : Ty) (index? : Option Nat) (isOptional : Bool) : Ty :=
  if base.isUnknown then .unknown
  else if base.kind == .any then .any
  else
    let item := itemType base index? isOptional
    if isOptional && !item.isNone then item.withNullable true else item

end FormulaInspection.Ty
