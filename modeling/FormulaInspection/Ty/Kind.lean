import FormulaInspection.Grammar.Token

/-!
The primitive tag that every type has.
-/

namespace FormulaInspection

/-- The tag of a type. `unknown` is the type of what has not been written yet, `none` the type of
what cannot have a value, and `notApplicable` the type of nodes that are no expression. -/
inductive TypeKind where
  | action
  | any
  | anyNonNull
  | binary
  | date
  | dateTime
  | dateTimeZone
  | duration
  | function
  | list
  | logical
  | none
  | notApplicable
  | null
  | number
  | record
  | table
  | text
  | time
  | type
  | unknown
  deriving DecidableEq, Inhabited

namespace TypeKind

def name : TypeKind → String
  | .action => "Action"
  | .any => "Any"
  | .anyNonNull => "AnyNonNull"
  | .binary => "Binary"
  | .date => "Date"
  | .dateTime => "DateTime"
  | .dateTimeZone => "DateTimeZone"
  | .duration => "Duration"
  | .function => "Function"
  | .list => "List"
  | .logical => "Logical"
  | .none => "None"
  | .notApplicable => "NotApplicable"
  | .null => "Null"
  | .number => "Number"
  | .record => "Record"
  | .table => "Table"
  | .text => "Text"
  | .time => "Time"
  | .type => "Type"
  | .unknown => "Unknown"

def render : TypeKind → String
  | .action => "action"
  | .any => "any"
  | .anyNonNull => "anynonnull"
  | .binary => "binary"
  | .date => "date"
  | .dateTime => "datetime"
  | .dateTimeZone => "datetimezone"
  | .duration => "duration"
  | .function => "function"
  | .list => "list"
  | .logical => "logical"
  | .none => "none"
  | .notApplicable => "not applicable"
  | .null => "null"
  | .number => "number"
  | .record => "record"
  | .table => "table"
  | .text => "text"
  | .time => "time"
  | .type => "type"
  | .unknown => "unknown"

def all : List TypeKind :=
  [ .action, .any, .anyNonNull, .binary, .date, .dateTime, .dateTimeZone, .duration, .function,
    .list, .logical, .none, .notApplicable, .null, .number, .record, .table, .text, .time, .type,
    .unknown]

def ofName? (text : String) : Option TypeKind :=
  all.find? fun kind => kind.name == text

def isNullableByDefault : TypeKind → Bool
  | .any | .null | .unknown | .notApplicable => true
  | _ => false

end TypeKind

def PrimitiveName.kind : PrimitiveName → TypeKind
  | .action => .action
  | .any => .any
  | .anyNonNull => .anyNonNull
  | .binary => .binary
  | .date => .date
  | .dateTime => .dateTime
  | .dateTimeZone => .dateTimeZone
  | .duration => .duration
  | .function => .function
  | .list => .list
  | .logical => .logical
  | .none => .none
  | .null => .null
  | .number => .number
  | .record => .record
  | .table => .table
  | .text => .text
  | .time => .time
  | .type => .type

end FormulaInspection
