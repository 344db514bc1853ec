import FormulaInspection.Ty.Basic

/-!
Types as they are shown to a reader: `nullable number`, `[a: number, ...]`, `(x: any) => text`.
-/

namespace FormulaInspection

def Parameter.render (parameter : Parameter) : String :=
  (if parameter.isOptional then "optional " else "") ++ parameter.name ++ ": " ++
    match parameter.kind with
    | none => "any"
    | some kind =>
      if parameter.isNullable && !kind.isNullableByDefault then "nullable " ++ kind.render
      else kind.render

namespace Ty

def bracketFields (fields : List String) (isOpen : Bool) : String :=
  "[" ++ ", ".intercalate (if isOpen then fields ++ ["..."] else fields) ++ "]"

def nullableMark (isNullable : Bool) : String :=
  if isNullable then "nullable " else ""

mutual

/-- A union shows its members only; a kind that is nullable anyway does not say so. -/
def render : Ty → String
  | .primitive kind isNullable =>
    nullableMark (isNullable && !kind.isNullableByDefault) ++ kind.render
  | .union members _ => " | ".intercalate (renderEach members)
  | .function parameters result isNullable =>
    nullableMark isNullable ++ "(" ++ ", ".intercalate (parameters.map Parameter.render) ++
      ") => " ++ render result
  | .list elements isNullable =>
    nullableMark isNullable ++ "\x7b" ++ ", ".intercalate (renderEach elements) ++ "\x7d"
  | .record fields isOpen isNullable =>
    nullableMark isNullable ++ bracketFields (renderFields fields) isOpen
  | .table fields isOpen isNullable =>
    nullableMark isNullable ++ "table " ++ bracketFields (renderFields fields) isOpen
  | .listType item isNullable => nullableMark isNullable ++ "type \x7b" ++ render item ++ "\x7d"
  | .recordType fields isOpen isNullable =>
    nullableMark isNullable ++ "type " ++ bracketFields (renderFields fields) isOpen
  | .tableType fields isOpen isNullable =>
    nullableMark isNullable ++ "type table " ++ bracketFields (renderFields fields) isOpen
  | .typeValue denoted isNullable => nullableMark isNullable ++ "type " ++ render denoted

def renderEach : List Ty → List String
  | [] => []
  | ty :: rest => render ty :: renderEach rest

def renderFields : List (String × Ty) → List String
  | [] => []
  | (name, ty) :: rest => (name ++ ": " ++ render ty) :: renderFields rest

end

end Ty

end FormulaInspection
