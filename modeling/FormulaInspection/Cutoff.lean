import FormulaInspection.Error

/-!
What keeps an inspection from going on: the wish of the host to stop, and a limit to the nesting of
inference.
-/

namespace FormulaInspection

/-- When the host asks an inspection to stop. The inspection polls it before each piece of work. -/
inductive Cancellation where
  | never
  | after (polls : Nat)
  deriving DecidableEq, Inhabited

def Cancellation.poll : Cancellation → Except InspectionError Cancellation
  | .never => .ok .never
  | .after 0 => .error .cancelled
  | .after (polls + 1) => .ok (.after polls)

def defaultMaxDepth : Nat := 512

end FormulaInspection
