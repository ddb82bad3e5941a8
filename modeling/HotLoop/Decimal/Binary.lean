/-!
# Binary floating point, exactly

The 64-bit pattern of a float is read as NaN, an infinity or a signed value `m * 2 ^ q` in natural
numbers, and the decimals that read back as the same float are an interval around it.
-/

namespace HotLoop.Decimal

/-- The value `m * 2 ^ q`. -/
structure Binary where
  m : Nat
  q : Int
  /-- The gap to the float below is half the gap to the float above. -/
  narrowBelow : Bool
  deriving DecidableEq

inductive Reading where
  | nan
  | infinite (negative : Bool)
  | finite (negative : Bool) (magnitude : Binary)
  deriving DecidableEq

def Reading.ofBits (bits : UInt64) : Reading :=
  let negative := bits >>> 63 == 1
  let e := ((bits >>> 52) &&& 0x7FF).toNat
  let f := (bits &&& 0xFFFFFFFFFFFFF).toNat
  if e = 0x7FF then if f = 0 then .infinite negative else .nan
  else if e = 0 then .finite negative ⟨f, -1074, false⟩
  else .finite negative ⟨0x10000000000000 + f, (e : Int) - 1075, f == 0 && 1 < e⟩

/-- The value `digits * 10 ^ exp`. -/
structure Value where
  digits : Nat
  exp : Int
  deriving DecidableEq

/-- Compares `d` with `n * 2 ^ j`. -/
def Value.compareBinary (d : Value) (n : Nat) (j : Int) : Ordering :=
  compare (d.digits * Nat.pow 10 d.exp.toNat * Nat.pow 2 (-j).toNat)
    (n * Nat.pow 2 j.toNat * Nat.pow 10 (-d.exp).toNat)

/-- Whether `d` rounds to `x`: it lies between the midpoints to the two neighbours of `x`, which
themselves round to the float with the even significand. -/
def Binary.ReadsBack (x : Binary) (d : Value) : Prop :=
  let below := d.compareBinary (if x.narrowBelow then 4 * x.m - 1 else 4 * x.m - 2) (x.q - 2)
  let above := d.compareBinary (4 * x.m + 2) (x.q - 2)
  (below = .gt ∧ above = .lt) ∨ (x.m % 2 = 0 ∧ (below = .eq ∨ above = .eq))

instance (x : Binary) (d : Value) : Decidable (x.ReadsBack d) := by
  unfold Binary.ReadsBack
  infer_instance

end HotLoop.Decimal
