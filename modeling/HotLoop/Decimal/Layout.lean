import HotLoop.Decimal.Shortest

/-!
# Layouts of decimals

How the digits of a float are laid out: positionally within a range of exponents, otherwise with an
exponent behind the letter e. All decisions of one format are one `Layout`.
-/

namespace HotLoop.Decimal

structure Layout where
  tie : Tie
  /-- The least and greatest exponent of the leading digit that is written positionally. -/
  plainFrom : Int
  plainTo : Int
  /-- Non-negative exponents carry a plus sign. -/
  plusSign : Bool
  nan : String
  /-- The texts of the positive and the negative infinity. -/
  infinity : String
  minusInfinity : String

namespace Layout

/-- Digits behind `zeros` zeros, behind a point. -/
def fraction (zeros : Nat) (ds : List Char) : List Char :=
  ['0', '.'] ++ List.replicate zeros '0' ++ ds

def positional (ds : List Char) (e : Int) : List Char :=
  if e < 0 then fraction (-e - 1).toNat ds
  else
    let n := e.toNat + 1
    if ds.length ≤ n then ds ++ List.replicate (n - ds.length) '0' ++ ['.', '0']
    else ds.take n ++ '.' :: ds.drop n

def scientific (l : Layout) (ds : List Char) (e : Int) : List Char :=
  let body := match ds with
    | d :: r :: rest => d :: '.' :: r :: rest
    | _ => ds
  let sign := if e < 0 then ['-'] else if l.plusSign then ['+'] else []
  body ++ 'e' :: sign ++ Nat.toDigits 10 e.natAbs

/-- A nonzero decimal; `e` is the exponent of its leading digit. -/
def layOut (l : Layout) (d : Value) : List Char :=
  let ds := Nat.toDigits 10 d.digits
  let e := d.exp + ds.length - 1
  if l.plainFrom ≤ e ∧ e ≤ l.plainTo then positional ds e else l.scientific ds e

def render (l : Layout) (bits : UInt64) : String :=
  match Reading.ofBits bits with
  | .nan => l.nan
  | .infinite negative => if negative then l.minusInfinity else l.infinity
  | .finite negative x =>
    let sign := if negative then ['-'] else []
    let body := if x.m = 0 then ['0', '.', '0'] else l.layOut (x.shortest l.tie)
    String.ofList (sign ++ body)

end Layout

end HotLoop.Decimal
