import FormulaInspection.Command.Inspect

/-!
The command line.
-/

namespace FormulaInspection

def readSource? (path? : Option String) : IO (Option ByteArray) := do
  try
    match path? with
    | some path => return some (← IO.FS.readBinFile path)
    | none => return some (← (← IO.getStdin).readBinToEnd)
  catch _ => return none

end FormulaInspection

open FormulaInspection

def main (commandLine : List String) : IO UInt32 := do
  match ← runCommand commandLine readSource? with
  | .ok text =>
    IO.print text
    return 0
  | .error failure =>
    IO.eprintln failure.message
    return 1
