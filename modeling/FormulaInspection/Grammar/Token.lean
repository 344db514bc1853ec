/-!
The fixed tokens of the language: keywords, operators and punctuation, and the two small
vocabularies that leaves carry besides them.
-/

namespace FormulaInspection

inductive Token where
  | andWord
  | asWord
  | eachWord
  | elseWord
  | errorWord
  | ifWord
  | inWord
  | isWord
  | letWord
  | metaWord
  | notWord
  | nullableWord
  | optionalWord
  | orWord
  | otherwiseWord
  | sectionWord
  | sharedWord
  | tableWord
  | thenWord
  | tryWord
  | typeWord
  | functionWord
  | asterisk
  | division
  | plus
  | minus
  | ampersand
  | equal
  | notEqual
  | lessThan
  | lessThanEqualTo
  | greaterThan
  | greaterThanEqualTo
  | atSign
  | comma
  | dotDot
  | ellipsis
  | fatArrow
  | leftBrace
  | leftBracket
  | leftParenthesis
  | nullCoalescing
  | questionMark
  | rightBrace
  | rightBracket
  | rightParenthesis
  | semicolon
  deriving DecidableEq, Inhabited

namespace Token

def name : Token → String
  | .andWord => "And"
  | .asWord => "As"
  | .eachWord => "Each"
  | .elseWord => "Else"
  | .errorWord => "Error"
  | .ifWord => "If"
  | .inWord => "In"
  | .isWord => "Is"
  | .letWord => "Let"
  | .metaWord => "Meta"
  | .notWord => "Not"
  | .nullableWord => "Nullable"
  | .optionalWord => "Optional"
  | .orWord => "Or"
  | .otherwiseWord => "Otherwise"
  | .sectionWord => "Section"
  | .sharedWord => "Shared"
  | .tableWord => "Table"
  | .thenWord => "Then"
  | .tryWord => "Try"
  | .typeWord => "Type"
  | .functionWord => "Function"
  | .asterisk => "Asterisk"
  | .division => "Division"
  | .plus => "Plus"
  | .minus => "Minus"
  | .ampersand => "Ampersand"
  | .equal => "Equal"
  | .notEqual => "NotEqual"
  | .lessThan => "LessThan"
  | .lessThanEqualTo => "LessThanEqualTo"
  | .greaterThan => "GreaterThan"
  | .greaterThanEqualTo => "GreaterThanEqualTo"
  | .atSign => "AtSign"
  | .comma => "Comma"
  | .dotDot => "DotDot"
  | .ellipsis => "Ellipsis"
  | .fatArrow => "FatArrow"
  | .leftBrace => "LeftBrace"
  | .leftBracket => "LeftBracket"
  | .leftParenthesis => "LeftParenthesis"
  | .nullCoalescing => "NullCoalescing"
  | .questionMark => "QuestionMark"
  | .rightBrace => "RightBrace"
  | .rightBracket => "RightBracket"
  | .rightParenthesis => "RightParenthesis"
  | .semicolon => "Semicolon"

def text : Token → String
  | .andWord => "and"
  | .asWord => "as"
  | .eachWord => "each"
  | .elseWord => "else"
  | .errorWord => "error"
  | .ifWord => "if"
  | .inWord => "in"
  | .isWord => "is"
  | .letWord => "let"
  | .metaWord => "meta"
  | .notWord => "not"
  | .nullableWord => "nullable"
  | .optionalWord => "optional"
  | .orWord => "or"
  | .otherwiseWord => "otherwise"
  | .sectionWord => "section"
  | .sharedWord => "shared"
  | .tableWord => "table"
  | .thenWord => "then"
  | .tryWord => "try"
  | .typeWord => "type"
  | .functionWord => "function"
  | .asterisk => "*"
  | .division => "/"
  | .plus => "+"
  | .minus => "-"
  | .ampersand => "&"
  | .equal => "="
  | .notEqual => "<>"
  | .lessThan => "<"
  | .lessThanEqualTo => "<="
  | .greaterThan => ">"
  | .greaterThanEqualTo => ">="
  | .atSign => "@"
  | .comma => ","
  | .dotDot => ".."
  | .ellipsis => "..."
  | .fatArrow => "=>"
  | .leftBrace => "\x7b"
  | .leftBracket => "["
  | .leftParenthesis => "("
  | .nullCoalescing => "??"
  | .questionMark => "?"
  | .rightBrace => "\x7d"
  | .rightBracket => "]"
  | .rightParenthesis => ")"
  | .semicolon => ";"

def all : List Token :=
  [ .andWord, .asWord, .eachWord, .elseWord, .errorWord, .ifWord, .inWord, .isWord, .letWord,
    .metaWord, .notWord, .nullableWord, .optionalWord, .orWord, .otherwiseWord, .sectionWord,
    .sharedWord, .tableWord, .thenWord, .tryWord, .typeWord, .functionWord, .asterisk, .division,
    .plus, .minus, .ampersand, .equal, .notEqual, .lessThan, .lessThanEqualTo, .greaterThan,
    .greaterThanEqualTo, .atSign, .comma, .dotDot, .ellipsis, .fatArrow, .leftBrace, .leftBracket,
    .leftParenthesis, .nullCoalescing, .questionMark, .rightBrace, .rightBracket,
    .rightParenthesis, .semicolon]

def ofName? (text : String) : Option Token :=
  all.find? fun token => token.name == text

end Token

inductive LiteralKind where
  | logical
  | null
  | numeric
  | text
  deriving DecidableEq, Inhabited

namespace LiteralKind

def name : LiteralKind → String
  | .logical => "Logical"
  | .null => "Null"
  | .numeric => "Numeric"
  | .text => "Text"

def all : List LiteralKind := [.logical, .null, .numeric, .text]

def ofName? (text : String) : Option LiteralKind :=
  all.find? fun kind => kind.name == text

end LiteralKind

inductive PrimitiveName where
  | action
  | any
  | anyNonNull
  | binary
  | date
  | dateTime
  | dateTimeZone
  | duration
  | function
  | list
  | logical
  | none
  | null
  | number
  | record
  | table
  | text
  | time
  | type
  deriving DecidableEq, Inhabited

namespace PrimitiveName

def name : PrimitiveName → String
  | .action => "Action"
  | .any => "Any"
  | .anyNonNull => "AnyNonNull"
  | .binary => "Binary"
  | .date => "Date"
  | .dateTime => "DateTime"
  | .dateTimeZone => "DateTimeZone"
  | .duration => "Duration"
  | .function => "Function"
  | .list => "List"
  | .logical => "Logical"
  | .none => "None"
  | .null => "Null"
  | .number => "Number"
  | .record => "Record"
  | .table => "Table"
  | .text => "Text"
  | .time => "Time"
  | .type => "Type"

def all : List PrimitiveName :=
  [ .action, .any, .anyNonNull, .binary, .date, .dateTime, .dateTimeZone, .duration, .function,
    .list, .logical, .none, .null, .number, .record, .table, .text, .time, .type]

def ofName? (text : String) : Option PrimitiveName :=
  all.find? fun primitive => primitive.name == text

end PrimitiveName

end FormulaInspection
