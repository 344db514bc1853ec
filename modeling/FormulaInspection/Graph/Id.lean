import Std.Data.ExtTreeMap

/-!
Node ids and tables indexed by them. Two tables are equal exactly when they hold the same values
under the same ids, and they are listed by ascending id.
-/

namespace FormulaInspection

abbrev NodeId := Nat

abbrev IdMap (α : Type) := Std.ExtTreeMap NodeId α

end FormulaInspection
