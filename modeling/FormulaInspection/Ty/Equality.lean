import FormulaInspection.NameMap
import FormulaInspection.Ty.Basic

/-!
Equality of types. Two field lists are equal when they have the same names with equal types,
whatever their order; everything else is compared in order.
-/

namespace FormulaInspection.Ty

mutual

def same : Ty → Ty → Bool
  | .primitive kind isNullable, .primitive kind' isNullable' =>
    kind == kind' && isNullable == isNullable'
  | .union members isNullable, .union members' isNullable' =>
    isNullable == isNullable' && sameEach members members'
  | .function parameters result isNullable, .function parameters' result' isNullable' =>
    isNullable == isNullable' && parameters == parameters' && same result result'
  | .list elements isNullable, .list elements' isNullable' =>
    isNullable == isNullable' && sameEach elements elements'
  | .record fields isOpen isNullable, .record fields' isOpen' isNullable' =>
    isOpen == isOpen' && isNullable == isNullable' && fields.length == fields'.length &&
      sameFields fields fields'
  | .table fields isOpen isNullable, .table fields' isOpen' isNullable' =>
    isOpen == isOpen' && isNullable == isNullable' && fields.length == fields'.length &&
      sameFields fields fields'
  | .listType item isNullable, .listType item' isNullable' =>
    isNullable == isNullable' && same item item'
  | .recordType fields isOpen isNullable, .recordType fields' isOpen' isNullable' =>
    isOpen == isOpen' && isNullable == isNullable' && fields.length == fields'.length &&
      sameFields fields fields'
  | .tableType fields isOpen isNullable, .tableType fields' isOpen' isNullable' =>
    isOpen == isOpen' && isNullable == isNullable' && fields.length == fields'.length &&
      sameFields fields fields'
  | .typeValue denoted isNullable, .typeValue denoted' isNullable' =>
    isNullable == isNullable' && same denoted denoted'
  | _, _ => false

def sameEach : List Ty → List Ty → Bool
  | [], [] => true
  | ty :: rest, ty' :: rest' => same ty ty' && sameEach rest rest'
  | _, _ => false

def sameFields : List (String × Ty) → List (String × Ty) → Bool
  | [], _ => true
  | (name, ty) :: rest, others =>
    (match NameMap.get? others name with
      | some other => same ty other
      | none => false) && sameFields rest others

end

end FormulaInspection.Ty
