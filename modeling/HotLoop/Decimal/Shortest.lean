import HotLoop.Decimal.Binary

/-!
# The fewest digits that read back

For one digit, two digits and so on, the two neighbours of a float on that decimal grid are tried,
and the first grid on which one of them reads back wins; of two the nearer one is taken, and a
`Tie` decides between equally near ones. `readsBack_onGrid?` says that what is chosen reads back.
-/

namespace HotLoop.Decimal

inductive Tie where
  | toEven
  | awayFromZero
  deriving DecidableEq

namespace Binary

/-- The least `k` among the candidates with `x < 10 ^ k`. -/
def scale (x : Binary) : Int :=
  let guess := ((x.m.log2 : Int) + x.q) * 30103 / 100000
  let fits (k : Int) : Bool := (Value.mk 1 k).compareBinary x.m x.q == .gt
  if fits guess then guess
  else if fits (guess + 1) then guess + 1
  else guess + 2

/-- The fraction `x / 10 ^ e` as numerator and denominator. -/
def quotient (x : Binary) (e : Int) : Nat × Nat :=
  (x.m * Nat.pow 2 x.q.toNat * Nat.pow 10 (-e).toNat,
    Nat.pow 2 (-x.q).toNat * Nat.pow 10 e.toNat)

/-- The neighbour of `x` on the grid of multiples of `10 ^ e` that reads back. -/
def onGrid? (x : Binary) (tie : Tie) (e : Int) : Option Value :=
  let (num, den) := x.quotient e
  let lower : Value := ⟨num / den, e⟩
  let upper : Value := ⟨num / den + 1, e⟩
  if x.ReadsBack lower then
    if x.ReadsBack upper then
      match compare (2 * num) ((2 * (num / den) + 1) * den) with
      | .lt => some lower
      | .gt => some upper
      | .eq =>
        match tie with
        | .awayFromZero => some upper
        | .toEven => if num / den % 2 = 0 then some lower else some upper
    else some lower
  else if x.ReadsBack upper then some upper
  else none

theorem readsBack_onGrid? {x : Binary} {tie : Tie} {e : Int} {d : Value}
    (h : x.onGrid? tie e = some d) : x.ReadsBack d := by
  simp only [onGrid?] at h
  split at h
  · split at h
    · split at h
      · simp_all
      · simp_all
      · split at h
        · simp_all
        · split at h <;> simp_all
    · simp_all
  · split at h
    · simp_all
    · simp at h

/-- Moves trailing zeros of the digits into the exponent. -/
def stripZeros : Nat → Value → Value
  | 0, d => d
  | n + 1, d => if d.digits % 10 = 0 then stripZeros n ⟨d.digits / 10, d.exp + 1⟩ else d

/-- The shortest decimal for a float that is not zero. Seventeen digits suffice for every float;
beyond them the exact value stands. -/
def shortest (x : Binary) (tie : Tie) : Value :=
  let k := x.scale
  match (List.range 17).findSome? fun (n : Nat) => x.onGrid? tie (k - (n + 1)) with
  | some d => stripZeros 17 d
  | none => ⟨x.m * Nat.pow 2 x.q.toNat * Nat.pow 5 (-x.q).toNat, min x.q 0⟩

end Binary

end HotLoop.Decimal
