import HotLoop.Program.Run

/-!
# The bundled programs

Four loops over integers of 64 bits: a sum of a field that every pass writes, a sum of a green
value, a count whose branch flips, and a weighted sum whose weight changes once. Each has a bound
on its passes that its condition reaches first.
-/

namespace HotLoop.Program

/-! ## A sum of a field that every pass writes -/

structure CountDown where
  x : Int
  total : Int := 0
  deriving DecidableEq

def fieldSumEntry (id : Nat) : EntryPoint := ⟨id, "quasi_immut_counter", ["foo"], ["x", "total"]⟩

/-- Allocates the object whose quasi-immutable field is summed. -/
def allocFoo (h : Heap) (a : Int) : Except Error (Heap × ObjectId) := do
  let c ← ObjectClass.make "Foo" ["a"] ["a?"]
  h.alloc c [("a", a)]

/-- While `x` is positive: adds the field to the total, increments the field, decrements `x`. -/
def fieldSum (e : EntryPoint) (foo : ObjectId) : Program CountDown where
  entry := e
  greens _ := ⟨[.ref foo]⟩
  continues s := decide (0 < s.x)
  body s :=
    .getField ⟨foo, "a"⟩ fun a => .orFail a fun a =>
    .orFault (addWord s.total a) fun total =>
    .keep { s with total := total } <|
    .orFault (addWord a 1) fun bumped =>
    .setField ⟨foo, "a"⟩ bumped fun r => .orFail r fun _ =>
    .keep { x := s.x - 1, total := total } .done
  passes s := s.x.toNat

/-! ## A sum of a green value -/

/-- The state of a loop that counts up and adds. -/
structure CountUp where
  i : Int := 0
  total : Int := 0
  deriving DecidableEq

def greenSumEntry (id : Nat) : EntryPoint := ⟨id, "green_counter", ["n", "m"], ["i", "total"]⟩

/-- While `i` is below `m`: adds `n` to the total and increments `i`. Programs of one entry point
share its sites. -/
def greenSum (e : EntryPoint) (n m : Int) : Program CountUp where
  entry := e
  greens _ := ⟨[.int n, .int m]⟩
  continues s := decide (s.i < m)
  body s :=
    .orFault (addWord s.total n) fun total =>
    .keep { s with total := total } <|
    .orFault (addWord s.i 1) fun i =>
    .keep ⟨i, total⟩ .done
  passes s := (m - s.i).toNat

/-! ## A count whose branch flips -/

def flippingEntry (id : Nat) : EntryPoint := ⟨id, "branchy_counter", ["limit"], ["i"]⟩

/-- While `i` is at most `limit`: adds 2 to `i` from `flip` on, and increments it. -/
def flipping (e : EntryPoint) (limit flip : Int) : Program Int where
  entry := e
  greens _ := ⟨[.int limit]⟩
  continues i := decide (i ≤ limit)
  body i :=
    let flipped := decide (flip ≤ i)
    .branch flipped <|
    .orFault (if flipped then addWord i 2 else .ok i) fun i =>
    .keep i <|
    .orFault (addWord i 1) fun i =>
    .keep i .done
  passes i := (limit - i + 1).toNat

/-! ## A weighted sum whose weight changes once -/

def scaledSumEntry (id : Nat) : EntryPoint := ⟨id, "scaled_sum", ["cfg"], ["i", "total"]⟩

/-- Allocates the object whose quasi-immutable field is the weight. -/
def allocConfig (h : Heap) (scale : Int) : Except Error (Heap × ObjectId) := do
  let c ← ObjectClass.make "Config" ["scale"] ["scale?"]
  h.alloc c [("scale", scale)]

/-- While `i` is below `n`: adds `i` times the weight to the total, writes the new weight when `i`
is `switchAt`, and increments `i`. -/
def scaledSum (e : EntryPoint) (cfg : ObjectId) (n switchAt newScale : Int) : Program CountUp where
  entry := e
  greens _ := ⟨[.ref cfg]⟩
  continues s := decide (s.i < n)
  body s :=
    .getField ⟨cfg, "scale"⟩ fun scale => .orFail scale fun scale =>
    .orFault (mulWord s.i scale) fun term =>
    .orFault (addWord s.total term) fun total =>
    .keep { s with total := total } <|
    .branch (s.i = switchAt) <|
    let advance : Body CountUp := .orFault (addWord s.i 1) fun i => .keep ⟨i, total⟩ .done
    if s.i = switchAt then
      .setField ⟨cfg, "scale"⟩ newScale fun r => .orFail r fun _ => advance
    else advance
  passes s := (n - s.i).toNat

end HotLoop.Program
