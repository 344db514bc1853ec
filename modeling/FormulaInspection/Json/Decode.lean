import FormulaInspection.Decimal
import FormulaInspection.Graph.Id
import FormulaInspection.Json.Basic

/-!
Reading typed values out of JSON: numbers, texts, names out of a fixed list, structures and tables.
-/

namespace FormulaInspection.Json

variable {α : Type}

def nat32? : Json → Option Nat
  | .int (.ofNat value) => if value < Decimal.bound32 then some value else none
  | _ => none

def text? : Json → Option String
  | .string spelling => unescape? spelling
  | _ => none

inductive Reading where
  | direct
  | deferred
  deriving DecidableEq

/-- What stands beside a name that has no content of its own: `null`, and in a value that was kept
for later also an empty object. -/
def Reading.isEmpty : Reading → Json → Bool
  | _, .null => true
  | .deferred, .object [] => true
  | _, _ => false

def named? (ofName? : String → Option α) (reading : Reading := .direct) : Json → Option α
  | .string spelling => (unescape? spelling).bind ofName?
  | .object [(key, content)] =>
    if reading.isEmpty content then (unescape? key).bind ofName? else none
  | _ => none

def nullable? (read : Json → Option α) : Json → Option (Option α)
  | .null => some none
  | json => (read json).map some

def member? (members : List (String × Json)) (name : String) : Option (Option Json) :=
  match members.filter (fun entry => entry.1 == name) with
  | [] => some none
  | [(_, value)] => some (some value)
  | _ => none

def readMembers? : List (String × Json) → Option (List (String × Json))
  | [] => some []
  | (key, value) :: rest => do
    let key ← unescape? key
    return (key, value) :: (← readMembers? rest)

def objectFields? (names : List String) : Json → Option (List (Option Json))
  | .object members => do
    let members ← readMembers? members
    names.mapM (member? members)
  | _ => none

/-- The values of the named fields of a structure. It is written as an object or as the array of
its fields in order, from whose end the last `defaults` may be left off. -/
def structFields? (names : List String) (defaults : Nat) : Json → Option (List (Option Json))
  | .array items =>
    if names.length ≤ items.length + defaults ∧ items.length ≤ names.length then
      some (items.map some ++ List.replicate (names.length - items.length) none)
    else none
  | json => objectFields? names json

def listOf? (read : Json → Option α) : Json → Option (List α)
  | .array items => items.mapM read
  | _ => none

def addMembers? (read : Json → Option α) (table : IdMap α) :
    List (String × Json) → Option (IdMap α)
  | [] => some table
  | (key, value) :: rest => do
    let id ← Decimal.ofPlain? Decimal.bound32 key
    let value ← read value
    addMembers? read (table.insert id value) rest

def idMap? (read : Json → Option α) : Json → Option (IdMap α)
  | .object members => addMembers? read ∅ members
  | _ => none

def ofIdMap (write : α → Json) (table : IdMap α) : Json :=
  .object (table.toList.map fun entry => (Nat.repr entry.1, write entry.2))

def ofNat (value : Nat) : Json :=
  .int value

def ofOption (write : α → Json) : Option α → Json
  | some value => write value
  | none => .null

def ofList (write : α → Json) (values : List α) : Json :=
  .array (values.map write)

end FormulaInspection.Json
