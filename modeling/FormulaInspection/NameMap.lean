/-!
Lists of named values in the order in which their names first appeared. Record fields and scopes
are such lists: writing a name again replaces its value and keeps its place.
-/

namespace FormulaInspection.NameMap

variable {α : Type}

def get? : List (String × α) → String → Option α
  | [], _ => none
  | (key, value) :: rest, name => if key = name then some value else get? rest name

/-- Gives a name a value. A name that is present keeps its place, a new one goes to the end. -/
def set : List (String × α) → String → α → List (String × α)
  | [], name, value => [(name, value)]
  | (key, old) :: rest, name, value =>
    if key = name then (key, value) :: rest else (key, old) :: set rest name value

def setAll (entries updates : List (String × α)) : List (String × α) :=
  updates.foldl (fun entries update => set entries update.1 update.2) entries

def ofPairs (pairs : List (String × α)) : List (String × α) :=
  setAll [] pairs

def names (entries : List (String × α)) : List String :=
  entries.map (·.1)

end FormulaInspection.NameMap
