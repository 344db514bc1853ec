import FormulaInspection.Ty.Kind

/-!
Static types. A structured type knows its elements, fields or parameters; a primitive type is a
kind alone. Every type says whether its values may be `null`.
-/

namespace FormulaInspection

structure Parameter where
  name : String
  isOptional : Bool
  isNullable : Bool
  kind : Option TypeKind
  deriving DecidableEq, Inhabited

/-- The static type of a node. The last four constructors belong to nodes that denote a type rather
than a value. Field lists hold each name once, in the order of declaration. -/
inductive Ty where
  | primitive (kind : TypeKind) (isNullable : Bool)
  | union (members : List Ty) (isNullable : Bool)
  | function (parameters : List Parameter) (result : Ty) (isNullable : Bool)
  | list (elements : List Ty) (isNullable : Bool)
  | record (fields : List (String × Ty)) (isOpen isNullable : Bool)
  | table (fields : List (String × Ty)) (isOpen isNullable : Bool)
  | listType (item : Ty) (isNullable : Bool)
  | recordType (fields : List (String × Ty)) (isOpen isNullable : Bool)
  | tableType (fields : List (String × Ty)) (isOpen isNullable : Bool)
  | typeValue (denoted : Ty) (isNullable : Bool)

namespace Ty

def of (kind : TypeKind) : Ty :=
  .primitive kind kind.isNullableByDefault

instance : Inhabited Ty := ⟨.of .unknown⟩

protected abbrev any : Ty := .of .any

protected abbrev unknown : Ty := .of .unknown

protected abbrev none : Ty := .of .none

protected abbrev null : Ty := .of .null

protected abbrev logical : Ty := .of .logical

protected abbrev notApplicable : Ty := .of .notApplicable

def kind : Ty → TypeKind
  | .primitive kind _ => kind
  | .union .. => .any
  | .function .. => .function
  | .list .. => .list
  | .record .. => .record
  | .table .. => .table
  | .listType .. | .recordType .. | .tableType .. | .typeValue .. => .type

def isNullable : Ty → Bool
  | .primitive _ isNullable
  | .union _ isNullable
  | .function _ _ isNullable
  | .list _ isNullable
  | .record _ _ isNullable
  | .table _ _ isNullable
  | .listType _ isNullable
  | .recordType _ _ isNullable
  | .tableType _ _ isNullable
  | .typeValue _ isNullable => isNullable

/-- The same type with its own nullability replaced. Members of a union keep theirs. -/
def withNullable : Ty → Bool → Ty
  | .primitive kind _, nullable => .primitive kind nullable
  | .union members _, nullable => .union members nullable
  | .function parameters result _, nullable => .function parameters result nullable
  | .list elements _, nullable => .list elements nullable
  | .record fields isOpen _, nullable => .record fields isOpen nullable
  | .table fields isOpen _, nullable => .table fields isOpen nullable
  | .listType item _, nullable => .listType item nullable
  | .recordType fields isOpen _, nullable => .recordType fields isOpen nullable
  | .tableType fields isOpen _, nullable => .tableType fields isOpen nullable
  | .typeValue denoted _, nullable => .typeValue denoted nullable

def isPrimitive : Ty → Bool
  | .primitive .. => true
  | _ => false

/-- Bare `any`. A union has the same kind and is not bare. -/
def isAny : Ty → Bool
  | .primitive .any _ => true
  | _ => false

def isUnknown (ty : Ty) : Bool :=
  ty.kind == .unknown

def isNone (ty : Ty) : Bool :=
  ty.kind == .none

def isMeta (ty : Ty) : Bool :=
  ty.kind == .type

def unionMembers? : Ty → Option (List Ty)
  | .union members _ => some members
  | _ => none

def fields? : Ty → Option (List (String × Ty) × Bool)
  | .record fields isOpen _
  | .table fields isOpen _
  | .recordType fields isOpen _
  | .tableType fields isOpen _ => some (fields, isOpen)
  | _ => none

end Ty

end FormulaInspection
