import FormulaInspection.Ty.Combine
import FormulaInspection.Ty.Union

/-!
Binary operators on types. One table lists every pair of operand kinds an operator is defined on;
the result of an operation and the hint for a missing right operand are both read from it.
-/

namespace FormulaInspection

structure OperatorRule where
  left : TypeKind
  operator : Token
  right : TypeKind
  result : TypeKind
  deriving DecidableEq

namespace OperatorRule

def equalityOperators : List Token := [.equal, .notEqual]

def relationalOperators : List Token :=
  [.lessThan, .lessThanEqualTo, .greaterThan, .greaterThanEqualTo]

def arithmeticOperators : List Token := [.plus, .minus, .asterisk, .division]

def equatableKinds : List TypeKind :=
  [.action, .binary, .date, .dateTime, .dateTimeZone, .duration, .function, .list, .logical, .null,
    .number, .record, .table, .text, .time, .type]

def orderedKinds : List TypeKind :=
  [.binary, .date, .dateTime, .dateTimeZone, .duration, .logical, .null, .number, .text, .time]

def calendarKinds : List TypeKind := [.date, .dateTime, .dateTimeZone, .time]

def equality : List OperatorRule :=
  equalityOperators.flatMap fun operator => equatableKinds.flatMap fun kind =>
    if kind = .null then [⟨kind, operator, kind, .logical⟩]
    else
      [⟨kind, operator, kind, .logical⟩, ⟨kind, operator, .null, .logical⟩,
        ⟨.null, operator, kind, .logical⟩]

def relational : List OperatorRule :=
  relationalOperators.flatMap fun operator => orderedKinds.map fun kind =>
    ⟨kind, operator, kind, .logical⟩

def connective : List OperatorRule :=
  [.andWord, .orWord].map fun operator => ⟨.logical, operator, .logical, .logical⟩

def numeric : List OperatorRule :=
  arithmeticOperators.map fun operator => ⟨.number, operator, .number, .number⟩

def duration : List OperatorRule :=
  [⟨.duration, .plus, .duration, .duration⟩,
    ⟨.duration, .minus, .duration, .duration⟩,
    ⟨.duration, .asterisk, .number, .duration⟩,
    ⟨.number, .asterisk, .duration, .duration⟩,
    ⟨.duration, .division, .number, .duration⟩,
    ⟨.duration, .division, .duration, .number⟩]

def calendar : List OperatorRule :=
  calendarKinds.flatMap fun kind =>
    [⟨kind, .plus, .duration, kind⟩,
      ⟨.duration, .plus, kind, kind⟩,
      ⟨kind, .minus, .duration, kind⟩,
      ⟨kind, .minus, kind, .duration⟩]

def concatenation : List OperatorRule :=
  [⟨.text, .ampersand, .text, .text⟩,
    ⟨.date, .ampersand, .time, .dateTime⟩,
    ⟨.list, .ampersand, .list, .list⟩,
    ⟨.record, .ampersand, .record, .record⟩,
    ⟨.table, .ampersand, .table, .table⟩]

def table : List OperatorRule :=
  equality ++ relational ++ connective ++ numeric ++ duration ++ calendar ++ concatenation

end OperatorRule

def resultKind? (left : TypeKind) (operator : Token) (right : TypeKind) : Option TypeKind :=
  (OperatorRule.table.find? fun rule =>
    rule.left == left && rule.operator == operator && rule.right == right).map (·.result)

def rightKinds (left : TypeKind) (operator : Token) : List TypeKind :=
  ((OperatorRule.table.filter fun rule => rule.left == left && rule.operator == operator).map
    (·.right)).foldl (fun seen kind => if seen.contains kind then seen else seen ++ [kind]) []

namespace Ty

/-- The type of `left operator right`. An operation the table does not have is `none`. -/
def operate (left : Ty) (operator : Token) (right : Ty) : Ty :=
  if left.isUnknown || right.isUnknown then .unknown
  else if left.kind == .any || right.kind == .any then .any
  else
    match resultKind? left.kind operator right.kind with
    | none => .none
    | some kind =>
      if operator == .ampersand && (kind == .list || kind == .record || kind == .table) then
        combine left right
      else if OperatorRule.equalityOperators.contains operator then .primitive kind false
      else .primitive kind (left.isNullable || right.isNullable)

def operandHint (left : Ty) (operator : Token) : Ty :=
  if left.isUnknown then .unknown
  else if left.kind == .any then .any
  else oneOf ((rightKinds left.kind operator).map .of)

end Ty

end FormulaInspection
