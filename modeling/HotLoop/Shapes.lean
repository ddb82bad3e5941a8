import HotLoop.Fault
import HotLoop.FinMap

/-!
# Shapes of keys

A key has one value for each green variable of its entry point, and its values are of the same kinds
as in the first key that was accepted there. `Shapes` holds the kinds fixed so far.
-/

namespace HotLoop

structure Shapes where
  kinds : FinMap Nat (List Green.Kind)

namespace Shapes

def empty : Shapes := ⟨∅⟩

instance : EmptyCollection Shapes := ⟨empty⟩

/-- The first green variable whose value is of another kind than fixed. -/
def mismatch? (e : EntryPoint) (k : Key) (kinds : List Green.Kind) : Option String :=
  (((k.kinds.zip kinds).zip e.greens).find? fun p => p.1.1 ≠ p.1.2).map (·.2)

/-- Accepts or refuses a key. The first accepted one fixes the kinds; a refused one changes
nothing. -/
def check (s : Shapes) (e : EntryPoint) (k : Key) : Except Fault Shapes :=
  if k.values.length ≠ e.arity then .error (.keyLength k e)
  else match s.kinds.find? e.id with
    | none => .ok ⟨s.kinds.insert e.id k.kinds⟩
    | some kinds =>
      match mismatch? e k kinds with
      | none => .ok s
      | some green => .error (.keyKind k e green)

/-- Checks a key before a step on a store that shares the shapes. -/
def checkKey {σ : Type} (e : EntryPoint) (k : Key) : EStateM Fault (Shapes × σ) Unit := fun s =>
  match s.1.check e k with
  | .ok shapes => .ok () (shapes, s.2)
  | .error f => .error f s

end Shapes

end HotLoop
