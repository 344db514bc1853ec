import FormulaInspection.Json.Basic
import FormulaInspection.Json.Magnitude

/-!
Values whose reading is deferred. A member may stand before the one that says how to read it. Until
then it is kept as a value of its own, so all of it has to make sense by itself: every string names
a text, every number is in range, and the nesting is limited. What is merely passed over is not
held to this.
-/

namespace FormulaInspection.Json

mutual

def isDeferrable (levels : Nat) : Json → Bool
  | .null => true
  | .bool _ => true
  | .int value => (Magnitude.ofInt value).isFinite
  | .decimal spelling => (Magnitude.ofSpelling spelling.toList).isFinite
  | .string spelling => (unescape? spelling).isSome
  | .array items =>
    match levels with
    | 0 => false
    | levels + 1 => itemsDeferrable levels items
  | .object members =>
    match levels with
    | 0 => false
    | levels + 1 => membersDeferrable levels members

def itemsDeferrable (levels : Nat) : List Json → Bool
  | [] => true
  | item :: rest => isDeferrable levels item && itemsDeferrable levels rest

def membersDeferrable (levels : Nat) : List (String × Json) → Bool
  | [] => true
  | (key, value) :: rest =>
    (unescape? key).isSome && isDeferrable levels value && membersDeferrable levels rest

end

end FormulaInspection.Json
