import HotLoop.Json.Scan
import HotLoop.Location
import HotLoop.Text.Quoted

/-!
# Errors

What can go wrong without anybody breaking a contract: bad settings and parameters, unreadable
files, ill-formed declarations, and fields and objects that do not exist. Each cause has one
message.
-/

namespace HotLoop

/-- What is wrong with a named parameter. -/
inductive ParameterProblem where
  | notInteger (given : String)
  | notFlag (given : String)
  | unknown
  | noValue
  | notPair (given : String)
  deriving DecidableEq

/-- The settings that must not be zero. -/
inductive PositiveSetting where
  | threshold
  | traceEagerness
  | traceLimit
  deriving DecidableEq

inductive DeclarationProblem where
  | illFormed
  | declaredTwice
  deriving DecidableEq

inductive FileProblem where
  | missing
  | denied
  /-- A name stands behind something that is not a directory. -/
  | notDirectory
  /-- What should be read is a directory. -/
  | directory
  | nameTooLong
  | notText
  deriving DecidableEq

inductive Error where
  | parameter (name : String) (problem : ParameterProblem)
  | zero (setting : PositiveSetting)
  | file (problem : FileProblem)
  | json (problem : Json.Problem)
  | declaration (spec : String) (problem : DeclarationProblem)
  | unknownField (cls field : String)
  | unknownObject (object : ObjectId)
  deriving DecidableEq

/-- The parameters that can be set by name. -/
def parameterNames : List String :=
  ["threshold", "trace_eagerness", "trace_limit", "enable_quasi_immut"]

namespace ParameterProblem

def message : ParameterProblem → String
  | .notInteger given => "expected an integer, got " ++ Text.quote given
  | .notFlag given => "expected a boolean, got " ++ Text.quote given
  | .unknown => "unknown parameter (expected one of " ++ ", ".intercalate parameterNames ++ ")"
  | .noValue => "expected name=value"
  | .notPair given => "expected N,M, got " ++ Text.quote given

end ParameterProblem

namespace PositiveSetting

def name : PositiveSetting → String
  | .threshold => "threshold"
  | .traceEagerness => "trace_eagerness"
  | .traceLimit => "trace_limit"

end PositiveSetting

namespace DeclarationProblem

def message : DeclarationProblem → String
  | .illFormed => "expected `name`, `name?`, `name[*]` or `name?[*]`"
  | .declaredTwice => "field declared twice"

end DeclarationProblem

namespace FileProblem

def message : FileProblem → String
  | .missing => "No such file or directory (os error 2)"
  | .denied => "Permission denied (os error 13)"
  | .notDirectory => "Not a directory (os error 20)"
  | .directory => "Is a directory (os error 21)"
  | .nameTooLong => "File name too long (os error 36)"
  | .notText => "stream did not contain valid UTF-8"

end FileProblem

namespace Json.Problem

def message : Json.Problem → String
  | .malformed => "malformed text"
  | .truncated => "text ended too early"
  | .mistyped => "unexpected kind of value"

end Json.Problem

namespace Error

inductive Category where
  | settings
  | file
  | heap
  deriving DecidableEq

instance : ToString Category where
  toString
    | .settings => "ConfigError"
    | .file => "IOError"
    | .heap => "HeapError"

def category : Error → Category
  | .parameter _ _ => .settings
  | .zero _ => .settings
  | .file _ => .file
  | .json _ => .file
  | .declaration _ _ => .heap
  | .unknownField _ _ => .heap
  | .unknownObject _ => .heap

def message : Error → String
  | .parameter name p => "InvalidJitParam: " ++ name ++ ": " ++ p.message
  | .zero s => "ConfigError: " ++ s.name ++ " must be at least 1"
  | .file p => "IOError: " ++ p.message
  | .json p => "JsonError: " ++ p.message
  | .declaration spec p => "FieldSpecError: " ++ Text.quote spec ++ ": " ++ p.message
  | .unknownField cls field => "UnknownField: " ++ cls ++ "." ++ field
  | .unknownObject o => "UnknownObject: " ++ toString o.number

end Error

end HotLoop
