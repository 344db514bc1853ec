/-!
What an inspection can be asked for.
-/

namespace FormulaInspection

inductive Mode where
  | scope
  | type
  | widest
  deriving DecidableEq

namespace Mode

def name : Mode → String
  | .scope => "scope"
  | .type => "type"
  | .widest => "widest"

def all : List Mode :=
  [.scope, .type, .widest]

def ofName? (text : String) : Option Mode :=
  all.find? (·.name = text)

def unknownMessage (text : String) : String :=
  s!"Unknown mode: `{text}`"

end Mode

end FormulaInspection
