import HotLoop.Program.Run

/-!
# Scripts

A script is a loop program as data: variables hold integers of 64 bits, a variable that was never
assigned reads 0, and arithmetic wraps. Statements reach the frame and the heap; a probe writes down
how the pass is executed.
-/

namespace HotLoop

namespace Script

/-- Wraps to a signed integer of 64 bits. -/
def wrap (i : Int) : Int := i.bmod 0x10000000000000000

inductive Operator where
  | add
  | sub
  | mul
  | mod
  | eq
  | ne
  | lt
  | le
  | gt
  | ge
  | and
  | or

namespace Operator

def ofBool (b : Bool) : Int := if b then 1 else 0

/-- Comparisons and connectives give 1 or 0, and the remainder by 0 is 0. -/
def eval (a b : Int) : Operator → Int
  | .add => wrap (a + b)
  | .sub => wrap (a - b)
  | .mul => wrap (a * b)
  | .mod => if b = 0 then 0 else a.emod b
  | .eq => ofBool (a = b)
  | .ne => ofBool (a ≠ b)
  | .lt => ofBool (a < b)
  | .le => ofBool (a ≤ b)
  | .gt => ofBool (a > b)
  | .ge => ofBool (a ≥ b)
  | .and => ofBool (a ≠ 0 ∧ b ≠ 0)
  | .or => ofBool (a ≠ 0 ∨ b ≠ 0)

end Operator

inductive Expr where
  | literal (i : Int)
  | var (x : String)
  | binary (op : Operator) (a b : Expr)

structure State where
  vars : FinMap String Int
  /-- What the probes wrote. -/
  probes : String := ""

namespace State

def set (s : State) (x : String) (i : Int) : State := { s with vars := s.vars.insert x i }

end State

namespace Expr

def eval (s : State) : Expr → Int
  | .literal i => i
  | .var x => s.vars.findD x 0
  | .binary op a b => op.eval (a.eval s) (b.eval s)

def holds (s : State) (e : Expr) : Bool := decide (e.eval s ≠ 0)

/-- The object whose number has the same 64 bits as the value. -/
def object (s : State) (e : Expr) : ObjectId := ⟨((e.eval s).emod 0x10000000000000000).toNat⟩

end Expr

/-- A sequence of statements. -/
inductive Block where
  | done
  | assign (x : String) (e : Expr) (rest : Block)
  | getField (x : String) (object : Expr) (field : String) (rest : Block)
  | setField (object : Expr) (field : String) (value : Expr) (rest : Block)
  /-- Reads the heap beside the frame. -/
  | peek (x : String) (object : Expr) (field : String) (rest : Block)
  /-- A branch of the frame. -/
  | branch (cond : Expr) (yes no rest : Block)
  /-- A branch that the frame does not see. -/
  | choose (cond : Expr) (yes no rest : Block)
  | probe (rest : Block)

def letter : Frame.Activity → Char
  | .tracing => 'T'
  | .compiled => 'C'
  | .interpreted => 'I'

/-- The body that runs the statements from a state and goes on with the state they reach. -/
def Block.body : Block → State → (State → Program.Body State) → Program.Body State
  | .done, s, next => next s
  | .assign x e rest, s, next =>
    let s := s.set x (e.eval s)
    .keep s (rest.body s next)
  | .getField x o field rest, s, next =>
    .getField ⟨o.object s, field⟩ fun r => .orFail r fun i =>
      let s := s.set x i
      .keep s (rest.body s next)
  | .setField o field value rest, s, next =>
    .setField ⟨o.object s, field⟩ (value.eval s) fun r => .orFail r fun _ => rest.body s next
  | .peek x o field rest, s, next =>
    .peek ⟨o.object s, field⟩ fun r => .orFail r fun i =>
      let s := s.set x i
      .keep s (rest.body s next)
  | .branch cond yes no rest, s, next =>
    .branch (cond.holds s) <|
      if cond.holds s then yes.body s fun s => rest.body s next
      else no.body s fun s => rest.body s next
  | .choose cond yes no rest, s, next =>
    if cond.holds s then yes.body s fun s => rest.body s next
    else no.body s fun s => rest.body s next
  | .probe rest, s, next =>
    .ask fun a =>
      let s := { s with probes := s.probes.push (letter a) }
      .keep s (rest.body s next)

inductive GreenExpr where
  | int (e : Expr)
  | ref (e : Expr)
  | bool (e : Expr)
  | str (s : String)
  | float (bits : UInt64)

def GreenExpr.eval (s : State) : GreenExpr → Green
  | .int e => .int (e.eval s)
  | .ref e => .ref (e.object s)
  | .bool e => .bool (e.holds s)
  | .str t => .str t
  | .float bits => .float bits

end Script

/-- A loop program as data. -/
structure Script where
  greens : List Script.GreenExpr
  condition : Script.Expr
  block : Script.Block
  /-- The passes that a run may take. -/
  fuel : Nat := 1000

namespace Script

def program (c : Script) (e : EntryPoint) : Program State where
  entry := e
  greens s := ⟨c.greens.map (GreenExpr.eval s)⟩
  continues s := c.condition.holds s
  body s := c.block.body s fun _ => .done
  passes _ := c.fuel

end Script

end HotLoop
