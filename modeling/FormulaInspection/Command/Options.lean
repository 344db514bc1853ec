import FormulaInspection.Command.Mode
import FormulaInspection.Cutoff
import FormulaInspection.Decimal
import FormulaInspection.Graph.Id

/-!
The options of the command line. The arguments are first sorted into options, a flag and one
positional path, and then their values are read.
-/

namespace FormulaInspection

structure Options where
  mode : Mode := .type
  node : NodeId
  maxDepth : Nat := defaultMaxDepth
  filter : Bool := false
  path? : Option String := none

inductive OptionsError where
  | usage
  | node (text : String)
  | maxDepth (text : String)
  deriving DecidableEq

def OptionsError.message : OptionsError → String
  | .usage => "invalid option"
  | .node text => s!"invalid option: Invalid node id: `{text}`"
  | .maxDepth text => s!"invalid option: Invalid max depth: `{text}`"

inductive ValueOption where
  | mode
  | node
  | maxDepth
  deriving DecidableEq

structure Arguments where
  mode? : Option String := none
  node? : Option String := none
  maxDepth? : Option String := none
  filter : Bool := false
  path? : Option String := none

inductive Argument where
  | separator
  | valued (option : ValueOption) (text? : Option String)
  | filter
  | positional (text : String)
  | unknown

namespace Argument

def ofOption (name : String) (text? : Option String) : Argument :=
  match name with
  | "mode" => .valued .mode text?
  | "node" => .valued .node text?
  | "max-depth" => .valued .maxDepth text?
  | "filter" => .filter
  | _ => .unknown

/-- Sorts an argument. Further dashes before a name and further equality signs before a value do
not count, and a lone dash is positional. -/
def ofText (text : String) : Argument :=
  match text.toList with
  | ['-', '-'] => .separator
  | '-' :: '-' :: rest =>
    let body := rest.dropWhile (· == '-')
    let name := String.ofList (body.takeWhile (· != '='))
    match body.dropWhile (· != '=') with
    | [] => ofOption name none
    | _ :: value => ofOption name (some (String.ofList (value.dropWhile (· == '='))))
  | '-' :: _ :: _ => .unknown
  | _ => .positional text

end Argument

namespace Arguments

def fill? : Option String → String → Option (Option String)
  | none, text => some (some text)
  | some _, _ => none

def setValue? (arguments : Arguments) (option : ValueOption) (text : String) : Option Arguments :=
  match option with
  | .mode => (fill? arguments.mode? text).map ({ arguments with mode? := · })
  | .node => (fill? arguments.node? text).map ({ arguments with node? := · })
  | .maxDepth => (fill? arguments.maxDepth? text).map ({ arguments with maxDepth? := · })

def setFilter? (arguments : Arguments) : Option Arguments :=
  if arguments.filter then none else some { arguments with filter := true }

def setPath? (arguments : Arguments) (text : String) : Option Arguments :=
  (fill? arguments.path? text).map ({ arguments with path? := · })

/-- Sorts the arguments of a command line. An option without `=` takes the next argument as its
value, which must not look like an option itself. -/
def collect? (arguments : Arguments) : List String → Option Arguments
  | [] => some arguments
  | text :: rest =>
    match Argument.ofText text with
    | .separator => rest.foldlM setPath? arguments
    | .positional path => do collect? (← arguments.setPath? path) rest
    | .filter => do collect? (← arguments.setFilter?) rest
    | .valued option (some value) => do collect? (← arguments.setValue? option value) rest
    | .valued option none =>
      match rest with
      | value :: rest =>
        match Argument.ofText value with
        | .positional value => do collect? (← arguments.setValue? option value) rest
        | _ => none
      | [] => none
    | .unknown => none

end Arguments

namespace Options

def readMode : Option String → Except OptionsError Mode
  | none => .ok .type
  | some text =>
    match Mode.ofName? text with
    | some mode => .ok mode
    | none => .error .usage

def readMaxDepth : Option String → Except OptionsError Nat
  | none => .ok defaultMaxDepth
  | some text =>
    match Decimal.ofText? Decimal.bound64 text with
    | some limit => .ok limit
    | none => .error (.maxDepth text)

def readNode (text : String) : Except OptionsError NodeId :=
  match Decimal.ofText? Decimal.bound32 text with
  | some id => .ok id
  | none => .error (.node text)

/-- Reads a command line. The names of the mode and of the options are checked before any number
is read, and the node comes before the limit. -/
def parse (commandLine : List String) : Except OptionsError Options :=
  match Arguments.collect? {} commandLine with
  | none => .error .usage
  | some arguments =>
    match arguments.node? with
    | none => .error .usage
    | some text => do
      let mode ← readMode arguments.mode?
      let node ← readNode text
      let maxDepth ← readMaxDepth arguments.maxDepth?
      return { mode, node, maxDepth, filter := arguments.filter, path? := arguments.path? }

end Options

end FormulaInspection
