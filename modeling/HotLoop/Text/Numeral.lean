/-!
# Numerals

Reading of decimal and hexadecimal numerals, with an optional sign, into a bounded range, and the
hexadecimal digits of a number.
-/

namespace HotLoop.Text

/-- The value of an ASCII digit below `base`, in either case. -/
def digit? (base : Nat) (c : Char) : Option Nat :=
  let n :=
    if '0' ≤ c ∧ c ≤ '9' then c.toNat - '0'.toNat
    else if 'a' ≤ c ∧ c ≤ 'f' then c.toNat - 'a'.toNat + 10
    else if 'A' ≤ c ∧ c ≤ 'F' then c.toNat - 'A'.toNat + 10
    else base
  if n < base then some n else none

/-- Appends digits to `n`. -/
def extend? (base n : Nat) : List Char → Option Nat
  | [] => some n
  | c :: cs =>
    match digit? base c with
    | some d => extend? base (base * n + d) cs
    | none => none

/-- One or more digits. -/
def unsigned? (base : Nat) (cs : List Char) : Option Nat :=
  match cs with
  | [] => none
  | _ :: _ => extend? base 0 cs

/-- A numeral below `bound`, behind an optional plus sign. -/
def natural? (base bound : Nat) (cs : List Char) : Option Nat :=
  let value := match cs with
    | '+' :: rest => unsigned? base rest
    | _ => unsigned? base cs
  value.filter (· < bound)

/-- An integer of 64 bits, behind an optional sign. -/
def integer? (cs : List Char) : Option Int :=
  match cs with
  | '-' :: rest => ((unsigned? 10 rest).filter (· ≤ 0x8000000000000000)).map fun n => -(n : Int)
  | _ => (natural? 10 0x8000000000000000 cs).map fun n => (n : Int)

/-- Lower-case hexadecimal digits without leading zeros. -/
def hexDigits (n : Nat) : List Char := Nat.toDigits 16 n

end HotLoop.Text
