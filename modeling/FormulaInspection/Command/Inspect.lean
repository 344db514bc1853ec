import FormulaInspection.Command.Options
import FormulaInspection.Graph.Stored
import FormulaInspection.Inference.Evaluator
import FormulaInspection.Inference.Hint
import FormulaInspection.Json.Printer
import FormulaInspection.Scope.Position
import FormulaInspection.Ty.Render

/-!
The command: reads a stored graph and prints what the options ask about one of its nodes.
-/

namespace FormulaInspection

inductive CommandError where
  | options (failure : OptionsError)
  | source
  | graph
  | inspection (failure : InspectionError)
  deriving DecidableEq

def CommandError.message : CommandError → String
  | .options failure => failure.message
  | .source => "the graph cannot be read"
  | .graph => "the text is not a stored graph"
  | .inspection failure => failure.message

def inspectScope (graph : Graph) (id : NodeId) (filter : Bool) :
    Except InspectionError String := do
  let scopes ← (resolveScope graph id none .never).1
  let scopes ←
    if filter then filterByPosition graph scopes (← graph.ancestry id) else pure scopes
  match scopes[id]? with
  | some scope => return scope.toJson.pretty
  | none => .error (.missingScope id)

def inspectType (graph : Graph) (id : NodeId) (maxDepth : Nat) :
    Except InspectionError String := do
  let ty ← (inferType graph id maxDepth .empty .never).answer
  return ty.render

def inspectHint (graph : Graph) (id : NodeId) : Except InspectionError String := do
  let path ← graph.ancestry id
  return ((hintAlong graph path).getD .notApplicable).render

def inspect (graph : Graph) (options : Options) : Except InspectionError String := do
  let text ←
    match options.mode with
    | .scope => inspectScope graph options.node options.filter
    | .type => inspectType graph options.node options.maxDepth
    | .widest => inspectHint graph options.node
  return text ++ "\n"

def inspectSource (options : Options) (source? : Option ByteArray) : Except CommandError String :=
  match source?.bind fun bytes => String.fromUTF8? bytes with
  | none => .error .source
  | some text =>
    match Graph.parse? text with
    | none => .error .graph
    | some graph => (inspect graph options).mapError .inspection

def runCommand {m : Type → Type} [Monad m] (commandLine : List String)
    (readSource? : Option String → m (Option ByteArray)) : m (Except CommandError String) :=
  match Options.parse commandLine with
  | .error failure => pure (.error (.options failure))
  | .ok options => inspectSource options <$> readSource? options.path?

end FormulaInspection
