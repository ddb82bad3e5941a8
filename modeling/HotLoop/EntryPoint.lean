import HotLoop.Green

/-!
# Entry points

An entry point names a loop of the interpreted program with its green and its red variables. Two
entry points are the same when their numbers are, whatever they are called; a `Site` is a key under
one of them.
-/

namespace HotLoop

structure EntryPoint where
  id : Nat
  name : String
  greens : List String
  reds : List String
  deriving DecidableEq

instance : ToString EntryPoint where
  toString e := e.name

namespace EntryPoint

def arity (e : EntryPoint) : Nat := e.greens.length

/-- The position of a green variable in the key. -/
def greenIndex? (e : EntryPoint) (name : String) : Option Nat := e.greens.idxOf? name

end EntryPoint

structure Site where
  entry : Nat
  key : Key
  deriving DecidableEq

def EntryPoint.site (e : EntryPoint) (k : Key) : Site := ⟨e.id, k⟩

end HotLoop
