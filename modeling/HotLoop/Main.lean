import HotLoop.Command.Output

/-!
# The command line program

Reads the configuration file, if one is named, and prints what the command answers.
-/

def fileProblem : IO.Error → HotLoop.FileProblem
  | .permissionDenied .. => .denied
  | .inappropriateType _ code _ => if code = 21 then .directory else .notDirectory
  | .invalidArgument .. => .nameTooLong
  | _ => .missing

def readFile (path : String) : IO (Except HotLoop.FileProblem ByteArray) := do
  try
    return .ok (← IO.FS.readBinFile path)
  catch e => return .error (fileProblem e)

def main (args : List String) : IO UInt32 := do
  let file ← match HotLoop.Command.configPath? args with
    | none => pure (.error .missing)
    | some path => readFile path
  let output := HotLoop.Command.run args fun _ => file
  (← IO.getStdout).putStr output.stdout
  (← IO.getStderr).putStr output.stderr
  return output.exit.toUInt32
