import HotLoop.Text.Blank
import HotLoop.Text.Numeral

/-!
# Arguments

The command line names one task. Options stand before or behind the name: those of the task only
behind it, the general ones on either side, where the later side counts. On one side an option must
not come twice. A value follows its option or is joined to it by an equals sign; only then may it
begin with a dash. Behind `--` everything is an operand. In place of a task, `help` explains all of
them or the one that is named behind it.

Arguments are judged from left to right, and the first that is refused or asks for help decides. A
value that follows its option is judged when the next option comes or the line has ended: the last
one before the task's name is judged behind all other arguments.
-/

namespace HotLoop.Command

inductive Task where
  | fieldSum (a x : Int)
  /-- Sums of green values, each given as `n,m`. -/
  | greenSums (pairs : List String)
  | flipping (limit flip : Int)
  | scaledSum (n switchAt : Int)

structure Invocation where
  task : Task
  params : Option String
  config : Option String
  json : Bool

/-- Why no task is performed. -/
inductive Stop where
  | usage
  | help
  | version
  deriving DecidableEq

/-- The options given on one side of the task's name. -/
structure Options where
  params : Option String := none
  config : Option String := none
  json : Bool := false
  /-- The numbers of the task, by the names of their options. -/
  numbers : List (String × Int) := []
  operands : List String := []
  /-- An option and the value that followed it, not yet judged. -/
  held : Option (String × String) := none

/-- What one side of the task's name admits: whether it comes first, the options of the task, and
whether the task has operands. -/
structure Side where
  first : Bool := false
  numbers : List String := []
  operands : Bool := false

namespace Side

def TakesValue (s : Side) (name : String) : Prop := name ∈ "jit" :: "config" :: s.numbers

instance (s : Side) (name : String) : Decidable (s.TakesValue name) :=
  inferInstanceAs (Decidable (name ∈ _))

/-- Gives an option its value. A file must have a name, and numbers have 64 bits. -/
def setValue (s : Side) (o : Options) (name value : String) : Except Stop Options :=
  if name = "jit" then
    if o.params.isSome then .error .usage else .ok { o with params := some value }
  else if name = "config" then
    if o.config.isSome ∨ value = "" then .error .usage else .ok { o with config := some value }
  else if name ∈ s.numbers then
    match Text.integer? value.toList, o.numbers.lookup name with
    | some i, none => .ok { o with numbers := (name, i) :: o.numbers }
    | _, _ => .error .usage
  else .error .usage

/-- Judges the value that is held. -/
def settle (s : Side) (o : Options) : Except Stop Options :=
  match o.held with
  | none => .ok o
  | some (name, value) => s.setValue { o with held := none } name value

/-- Sets an option without a value. Verbosity may be raised again and again, and changes no
answer. -/
def setFlag (s : Side) (o : Options) : String → Except Stop Options
  | "json" => if o.json then .error .usage else .ok { o with json := true }
  | "verbose" => .ok o
  | "help" => .error .help
  | "version" => .error (if s.first then .version else .usage)
  | _ => .error .usage

def longName : Char → String
  | 'v' => "verbose"
  | 'h' => "help"
  | 'V' => "version"
  | c => String.singleton c

/-- Sets the options of a cluster of letters. -/
def setShort (s : Side) (o : Options) : List Char → Except Stop Options
  | [] => .ok o
  | c :: cs =>
    match s.setFlag o (longName c) with
    | .ok o => s.setShort o cs
    | .error stop => .error stop

end Side

/-- An argument as it reads before `--`. -/
inductive Word where
  | escape
  | long (name : String)
  | joined (name value : String)
  | short (letters : List Char)
  | plain (s : String)

def Word.ofString (s : String) : Word :=
  match s.toList with
  | ['-', '-'] => .escape
  | '-' :: '-' :: rest =>
    match Text.cut? '=' rest with
    | some (name, value) => .joined (String.ofList name) (String.ofList value)
    | none => .long (String.ofList rest)
  | '-' :: c :: rest => .short (c :: rest)
  | _ => .plain s

/-- Scans the arguments on one side of the task's name. On the first side it stops at the first
operand, which is returned with what follows; a value may then still be held. -/
def scan (s : Side) (o : Options) : List String → Except Stop (Options × List String)
  | [] => (s.settle o).map fun o => (o, [])
  | arg :: args =>
    match Word.ofString arg with
    | .escape => do
      let o ← s.settle o
      if s.operands then .ok ({ o with operands := o.operands ++ args }, [])
      else if args = [] then .ok (o, [])
      else .error .usage
    | .joined name value => do scan s (← s.setValue (← s.settle o) name value) args
    | .long name => do
      let o ← s.settle o
      if s.TakesValue name then
        match args with
        | [] => .error .usage
        | value :: args =>
          match Word.ofString value with
          | .plain value => scan s { o with held := some (name, value) } args
          | _ => .error .usage
      else do scan s (← s.setFlag o name) args
    | .short letters => do scan s (← s.setShort (← s.settle o) letters) args
    | .plain value =>
      if s.first then .ok (o, value :: args)
      else if s.operands then scan s { o with operands := o.operands ++ [value] } args
      else .error .usage

/-- The side behind a task's name, and the task that its options make. -/
def named? : String → Option (Side × (Options → Task))
  | "quasi-immut" =>
    some ({ numbers := ["a", "x"] }, fun o =>
      .fieldSum ((o.numbers.lookup "a").getD 100) ((o.numbers.lookup "x").getD 7))
  | "compile" =>
    some ({ operands := true }, fun o =>
      .greenSums (if o.operands = [] then ["1,4", "2,4"] else o.operands))
  | "bridge" =>
    some ({ numbers := ["limit", "flip"] }, fun o =>
      .flipping ((o.numbers.lookup "limit").getD 10) ((o.numbers.lookup "flip").getD 4))
  | "invalidate" =>
    some ({ numbers := ["n", "switch-at"] }, fun o =>
      .scaledSum ((o.numbers.lookup "n").getD 12) ((o.numbers.lookup "switch-at").getD 6))
  | _ => none

/-- Help is given on all tasks, or on one task or on help itself. -/
def helpStop : List String → Stop
  | [] => .help
  | [name] => if name = "help" ∨ (named? name).isSome then .help else .usage
  | _ => .usage

def parse (args : List String) : Except Stop Invocation := do
  let first : Side := { first := true }
  let (before, rest) ← scan first {} args
  match rest with
  | [] => throw .usage
  | name :: rest =>
    match named? name with
    | none => throw (if name = "help" then helpStop rest else .usage)
    | some (side, task) =>
      let (behind, _) ← scan side {} rest
      let before ← first.settle before
      return {
        task := task behind
        params := behind.params <|> before.params
        config := behind.config <|> before.config
        json := before.json || behind.json }

end HotLoop.Command
