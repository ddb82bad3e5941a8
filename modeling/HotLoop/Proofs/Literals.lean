import HotLoop.Json.Scan
import HotLoop.Json.Value
import HotLoop.Proofs.KeyTexts

/-!
# Number literals

The digits of a number, a fraction behind a point and an exponent behind the letter e make up the
literal of a number that is not negative. Every literal is passed over to its end, and every float
that is finite is written as one, behind its sign.
-/

namespace HotLoop

namespace Json

/-! ## Parts of a literal -/

structure Digits (ds : List Char) : Prop where
  ne_nil : ds ≠ []
  digits : ∀ d ∈ ds, isDigit d = true

structure Whole (ds : List Char) : Prop extends Digits ds where
  plain : ds.head? = some '0' → ds = ['0']

def Exponent (cs : List Char) : Prop :=
  ∃ ds, (cs = ds ∨ cs = '+' :: ds ∨ cs = '-' :: ds) ∧ Digits ds

inductive Fractional : List Char → Prop
  | fraction {w f : List Char} (hw : Whole w) (hf : Digits f) : Fractional (w ++ '.' :: f)
  | exponent {w x : List Char} (hw : Whole w) (hx : Exponent x) : Fractional (w ++ 'e' :: x)
  | both {w f x : List Char} (hw : Whole w) (hf : Digits f) (hx : Exponent x) :
      Fractional (w ++ '.' :: (f ++ 'e' :: x))

theorem digits_zero : Digits ['0'] := ⟨nofun, List.forall_mem_singleton.2 rfl⟩

theorem Digits.append {a b : List Char} (ha : Digits a) (hb : ∀ d ∈ b, isDigit d = true) :
    Digits (a ++ b) :=
  ⟨fun h => ha.ne_nil (List.append_eq_nil_iff.1 h).1,
    fun d hd => (List.mem_append.1 hd).elim (ha.digits d) (hb d)⟩

theorem Digits.exists_cons {ds : List Char} (hds : Digits ds) :
    ∃ d rest, ds = d :: rest ∧ isDigit d = true := by
  cases ds with
  | nil => exact absurd rfl hds.ne_nil
  | cons d rest => exact ⟨d, rest, rfl, hds.digits d List.mem_cons_self⟩

/-! ## Passing over literals -/

theorem skipExponent_exponent {x : List Char} (hx : Exponent x) : skipExponent x = .ok [] := by
  obtain ⟨ds, hx, hds⟩ := hx
  have hall : ds.dropWhile isDigit = [] := List.dropWhile_eq_nil_iff.2 hds.digits
  obtain ⟨d, rest, rfl, hd⟩ := hds.exists_cons
  have hplus : d ≠ '+' := Text.ne_of_isDigit hd rfl
  have hminus : d ≠ '-' := Text.ne_of_isDigit hd rfl
  rcases hx with rfl | rfl | rfl <;> unfold skipExponent
  · simp [hplus, hminus, hd, hall]
  · simp [hd, hall]
  · simp [hd, hall]

/-- Only what stands behind the integer digits counts; they may as well be a single zero. -/
theorem skipNumber_whole_append {w s : List Char} (hw : Whole w)
    (hs : ∀ c ∈ s.head?, isDigit c = false) : skipNumber (w ++ s) = skipNumber ('0' :: s) := by
  have hzero : Whole ['0'] := ⟨digits_zero, fun _ => rfl⟩
  have hok : ∀ {v : List Char}, Whole v → ¬ (v = [] ∨ (v.head? = some '0' ∧ v ≠ ['0'])) := by
    rintro v hv (h | ⟨h, hne⟩)
    · exact hv.ne_nil h
    · exact hne (hv.plain h)
  have htake := Text.takeWhile_append_of_stop hw.digits hs
  have hdrop := Text.dropWhile_append_of_stop hw.digits hs
  have htake' := Text.takeWhile_append_of_stop hzero.digits hs
  have hdrop' := Text.dropWhile_append_of_stop hzero.digits hs
  rw [← List.singleton_append]
  unfold skipNumber
  dsimp only
  rw [htake, hdrop, htake', hdrop', if_neg (hok hw), if_neg (hok hzero)]

theorem skipNumber_whole {w : List Char} (hw : Whole w) : skipNumber w = .ok [] := by
  have hend : ∀ c ∈ ([] : List Char).head?, isDigit c = false := fun c hc => by cases hc
  rw [← List.append_nil w, skipNumber_whole_append hw hend]
  rfl

theorem skipNumber_fractional {cs : List Char} (hcs : Fractional cs) : skipNumber cs = .ok [] := by
  have hpoint : ∀ f : List Char, ∀ c ∈ ('.' :: f).head?, isDigit c = false :=
    fun f c hc => Option.some.inj hc ▸ rfl
  have hletter : ∀ x : List Char, ∀ c ∈ ('e' :: x).head?, isDigit c = false :=
    fun x c hc => Option.some.inj hc ▸ rfl
  have hzero : isDigit '0' = true := rfl
  have hnone : isDigit '.' = false := rfl
  have hnone' : isDigit 'e' = false := rfl
  cases hcs with
  | fraction hw hf =>
      rw [skipNumber_whole_append hw (hpoint _)]
      have hall := List.dropWhile_eq_nil_iff.2 hf.digits
      obtain ⟨d, rest, rfl, hd⟩ := hf.exists_cons
      simp [skipNumber, hzero, hnone, hd, hall]
  | exponent hw hx =>
      rw [skipNumber_whole_append hw (hletter _)]
      simp [skipNumber, hzero, hnone', skipExponent_exponent hx]
  | @both w f x hw hf hx =>
      rw [skipNumber_whole_append hw (hpoint _)]
      have hrest := Text.dropWhile_append_of_stop hf.digits (hletter x)
      obtain ⟨d, rest, rfl, hd⟩ := hf.exists_cons
      rw [List.cons_append] at hrest ⊢
      simp [skipNumber, hzero, hnone, hd, hrest, skipExponent_exponent hx]

/-! ## Digits of a number -/

theorem head?_append_left {a : List Char} (ha : a ≠ []) (b : List Char) :
    (a ++ b).head? = a.head? := by
  cases a with
  | nil => exact absurd rfl ha
  | cons c a => rfl

theorem eq_zero_of_head?_digits {n : Nat} (h : (Nat.toDigits 10 n).head? = some '0') : n = 0 := by
  induction n using Nat.strongRecOn with
  | ind n ih =>
      rw [Nat.toDigits_eq_if (by omega)] at h
      split_ifs at h with hn
      · exact Nat.digitChar_eq_zero.1 (Option.some.inj h)
      · rw [head?_append_left Nat.toDigits_ne_nil] at h
        have hdiv := ih (n / 10) (by omega) h
        omega

theorem digits_toDigits (n : Nat) : Digits (Nat.toDigits 10 n) :=
  ⟨Nat.toDigits_ne_nil, fun _ hd => Text.isDigit_of_mem_digits hd⟩

theorem whole_toDigits (n : Nat) : Whole (Nat.toDigits 10 n) where
  toDigits := digits_toDigits n
  plain h := by
    rw [eq_zero_of_head?_digits h]
    rfl

/-- Digits of a number that is not zero, as far as they go, and zeros. -/
theorem whole_of_toDigits {n : Nat} (hn : n ≠ 0) {w s : List Char} (hw : w ≠ [])
    (hp : w <+: Nat.toDigits 10 n) (hs : ∀ d ∈ s, isDigit d = true) : Whole (w ++ s) := by
  obtain ⟨u, hu⟩ := hp
  have hwd : ∀ d ∈ w, isDigit d = true := by
    intro d hd
    apply (digits_toDigits n).digits
    rw [← hu]
    exact List.mem_append_left u hd
  refine ⟨Digits.append ⟨hw, hwd⟩ hs, fun h => absurd (eq_zero_of_head?_digits ?_) hn⟩
  rw [head?_append_left hw] at h
  rw [← hu, head?_append_left hw, h]

end Json

/-! ## Floats -/

namespace Decimal

theorem Value.compareBinary_zero {n : Nat} (hn : 0 < n) (e j : Int) :
    (Value.mk 0 e).compareBinary n j = .lt := by
  have hpos : 0 < n * Nat.pow 2 j.toNat * Nat.pow 10 (-e).toNat :=
    Nat.mul_pos (Nat.mul_pos hn (Nat.pow_pos (by omega))) (Nat.pow_pos (by omega))
  rw [Value.compareBinary, Nat.zero_mul, Nat.zero_mul]
  exact Nat.compare_eq_lt.2 hpos

namespace Binary

variable {x : Binary}

theorem ReadsBack.digits_ne_zero {d : Value} (h : x.ReadsBack d) (hx : x.m ≠ 0) : d.digits ≠ 0 := by
  intro hd
  obtain ⟨digits, e⟩ := d
  obtain rfl : digits = 0 := hd
  have hbelow : 0 < (if x.narrowBelow then 4 * x.m - 1 else 4 * x.m - 2) := by
    split_ifs <;> omega
  rw [ReadsBack, Value.compareBinary_zero hbelow, Value.compareBinary_zero (by omega)] at h
  simp at h

theorem stripZeros_ne_zero (n : Nat) {d : Value} (hd : d.digits ≠ 0) :
    (stripZeros n d).digits ≠ 0 := by
  induction n generalizing d with
  | zero => exact hd
  | succ n ih =>
      rw [stripZeros]
      split_ifs with hten
      · apply ih
        change d.digits / 10 ≠ 0
        omega
      · exact hd

theorem shortest_ne_zero (hx : x.m ≠ 0) (tie : Tie) : (x.shortest tie).digits ≠ 0 := by
  unfold shortest
  dsimp only
  split
  · rename_i d hd
    obtain ⟨n, -, hn⟩ := List.exists_of_findSome?_eq_some hd
    exact stripZeros_ne_zero 17 ((readsBack_onGrid? hn).digits_ne_zero hx)
  · exact Nat.mul_ne_zero (Nat.mul_ne_zero hx (Nat.pow_pos (by omega)).ne')
      (Nat.pow_pos (by omega)).ne'

end Binary

namespace Layout

open Json

theorem fractional_positional {n : Nat} (hn : n ≠ 0) (e : Int) :
    Fractional (positional (Nat.toDigits 10 n) e) := by
  have hds := digits_toDigits n
  have hzeros : ∀ k : Nat, ∀ d ∈ List.replicate k '0', isDigit d = true := by
    intro k d hd
    rw [(List.mem_replicate.1 hd).2]
    rfl
  unfold positional
  dsimp only
  split_ifs with he hle
  · refine .fraction (whole_toDigits 0) (f := List.replicate _ '0' ++ _)
      ⟨fun h => ?_, fun d hd => ?_⟩
    · exact hds.ne_nil (List.append_eq_nil_iff.1 h).2
    · exact (List.mem_append.1 hd).elim (hzeros _ d) (hds.digits d)
  · have hw := whole_of_toDigits hn hds.ne_nil (List.prefix_refl _)
      (hzeros (e.toNat + 1 - (Nat.toDigits 10 n).length))
    exact .fraction hw digits_zero
  · have hne : (Nat.toDigits 10 n).take (e.toNat + 1) ≠ [] := by
      intro h
      rcases List.take_eq_nil_iff.1 h with h | h
      · omega
      · exact hds.ne_nil h
    have hw := whole_of_toDigits hn hne (List.take_prefix _ _) (s := []) nofun
    rw [List.append_nil] at hw
    refine .fraction hw ⟨fun h => ?_, fun d hd => hds.digits d (List.mem_of_mem_drop hd)⟩
    have hlen := List.drop_eq_nil_iff.1 h
    omega

theorem fractional_scientific (l : Layout) {n : Nat} (hn : n ≠ 0) (e : Int) :
    Fractional (l.scientific (Nat.toDigits 10 n) e) := by
  have hds := digits_toDigits n
  have hx : Exponent ((if e < 0 then ['-'] else if l.plusSign then ['+'] else []) ++
      Nat.toDigits 10 e.natAbs) := by
    have he := digits_toDigits e.natAbs
    split_ifs
    · exact ⟨_, Or.inr (Or.inr rfl), he⟩
    · exact ⟨_, Or.inr (Or.inl rfl), he⟩
    · exact ⟨_, Or.inl rfl, he⟩
  unfold scientific
  cases hd : Nat.toDigits 10 n with
  | nil => exact absurd hd Nat.toDigits_ne_nil
  | cons d rest =>
      have hw : Whole [d] := by
        have hp : [d] <+: Nat.toDigits 10 n := by
          rw [hd]
          exact ⟨rest, rfl⟩
        have hw := whole_of_toDigits hn (List.cons_ne_nil d []) hp (s := []) nofun
        rwa [List.append_nil] at hw
      cases rest with
      | nil =>
          have hf := Fractional.exponent hw hx
          simpa using hf
      | cons r rest =>
          have hr : Digits (r :: rest) := by
            refine ⟨List.cons_ne_nil r rest, fun c hc => hds.digits c ?_⟩
            rw [hd]
            exact List.mem_cons_of_mem d hc
          have hf := Fractional.both hw hr hx
          simpa using hf

theorem fractional_layOut (l : Layout) {d : Value} (hd : d.digits ≠ 0) :
    Fractional (l.layOut d) := by
  unfold layOut
  dsimp only
  split_ifs
  · exact fractional_positional hd _
  · exact l.fractional_scientific hd _

/-- A float is written as a number, or by one of the three texts of the layout. -/
theorem render_cases (l : Layout) (bits : UInt64) :
    l.render bits = l.nan ∨ l.render bits = l.infinity ∨ l.render bits = l.minusInfinity ∨
      ∃ cs, Fractional cs ∧ ((l.render bits).toList = cs ∨ (l.render bits).toList = '-' :: cs) := by
  unfold render
  cases Reading.ofBits bits with
  | nan => exact Or.inl rfl
  | infinite negative =>
      apply Or.inr
      cases negative
      · exact Or.inl rfl
      · exact Or.inr (Or.inl rfl)
  | finite negative x =>
      refine Or.inr (Or.inr (Or.inr
        ⟨if x.m = 0 then ['0', '.', '0'] else l.layOut (x.shortest l.tie), ?_, ?_⟩))
      · split_ifs with hx
        · exact .fraction (whole_toDigits 0) (f := ['0']) digits_zero
        · exact l.fractional_layOut (Binary.shortest_ne_zero hx l.tie)
      · cases negative
        · left
          simp
        · right
          simp

end Layout

end Decimal

end HotLoop
