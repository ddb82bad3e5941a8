import HotLoop.Command.Session
import HotLoop.Settings.File

/-!
# Output

What a command prints and its exit code: 0 for success, 2 for a bad command line or bad settings, 1
for files and heap errors, and 101 for a fault.
-/

namespace HotLoop.Command

structure Output where
  exit : Nat
  stdout : String := ""
  stderr : String := ""

def usageText : String :=
  "Usage: jitportal [--jit <PARAMS>] [--config <FILE>] [--json] [-v]... <COMMAND>\n\n"
    ++ "Commands:\n"
    ++ "  quasi-immut  [--a <A>] [--x <X>]\n"
    ++ "  compile      [N,M]...\n"
    ++ "  bridge       [--limit <LIMIT>] [--flip <FLIP>]\n"
    ++ "  invalidate   [--n <N>] [--switch-at <SWITCH_AT>]\n"

def Stop.output : Stop → Output
  | .usage => { exit := 2, stderr := usageText }
  | .help => { exit := 0, stdout := usageText }
  | .version => { exit := 0, stdout := versionLine ++ "\n" }

def exitCode (e : Error) : Nat :=
  match e.category with
  | .settings => 2
  | .file => 1
  | .heap => 1

def Failure.output (printed : String) : Failure → Output
  | .error e => { exit := exitCode e, stdout := printed, stderr := e.message ++ "\n" }
  | .fault f => { exit := 101, stdout := printed, stderr := f.message ++ "\n" }

namespace Invocation

/-- The settings of the configuration file, or the eager ones without a file, with the parameters
of the command line applied. `read` gives the bytes of the file at a path. -/
def settings (i : Invocation) (read : String → Except FileProblem ByteArray) :
    Except Error Settings := do
  let base ← match i.config with
    | none => .ok Settings.eager
    | some path => Settings.ofFile (read path)
  match i.params with
  | none => return base
  | some params =>
    let (s, r) := base.apply params
    r
    return s

def output (i : Invocation) (read : String → Except FileProblem ByteArray) : Output :=
  let steps : Step Unit := do
    let settings ← orFail (i.settings read)
    i.task.perform settings
    report i.json
  match steps {} with
  | .ok () s => { exit := 0, stdout := s.printed }
  | .error failure s => failure.output s.printed

end Invocation

/-- What the command line prints. -/
def run (args : List String) (read : String → Except FileProblem ByteArray) : Output :=
  match parse args with
  | .error stop => stop.output
  | .ok i => i.output read

/-- The configuration file that the command line names. -/
def configPath? (args : List String) : Option String :=
  match parse args with
  | .error _ => none
  | .ok i => i.config

end HotLoop.Command
