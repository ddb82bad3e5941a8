import HotLoop.Text.Blank
import HotLoop.Text.Numeral
import Mathlib.Data.List.TakeWhile
import Mathlib.Data.Nat.Digits.Defs

/-!
# Spellings

Cutting at a separator, trimming of blanks and reading of numerals, each said without the function
that does it: `Cuts`, `Trims` and `Numeral` are relations between a text and what is read in it, and
the functions compute exactly them.
-/

namespace HotLoop.Text

/-! ## Pieces between separators -/

/-- The pieces hold no separator, and joined by it they are the text. -/
structure Cuts (sep : Char) (cs : List Char) (ps : List (List Char)) : Prop where
  ne_nil : ps ≠ []
  not_mem : ∀ p ∈ ps, sep ∉ p
  joined : [sep].intercalate ps = cs

theorem not_mem_of_mem_pieces {sep : Char} {cs p : List Char} (hp : p ∈ pieces sep cs) :
    sep ∉ p := by
  induction cs generalizing p with
  | nil =>
      rw [pieces, List.mem_singleton] at hp
      rw [hp]
      exact List.not_mem_nil
  | cons c cs ih =>
      rw [pieces] at hp
      split_ifs at hp with hc
      · rcases List.mem_cons.1 hp with rfl | hp
        · exact List.not_mem_nil
        · exact ih hp
      · cases hq : pieces sep cs with
        | nil => exact absurd hq (pieces_ne_nil sep cs)
        | cons q qs =>
            rw [hq] at hp ih
            rcases List.mem_cons.1 hp with rfl | hp
            · exact fun hm => (List.mem_cons.1 hm).elim (Ne.symm hc) (ih List.mem_cons_self)
            · exact ih (List.mem_cons_of_mem _ hp)

theorem cuts_pieces (sep : Char) (cs : List Char) : Cuts sep cs (pieces sep cs) :=
  ⟨pieces_ne_nil sep cs, fun _ => not_mem_of_mem_pieces, intercalate_pieces sep cs⟩

theorem cut?_eq_some_iff {sep : Char} {cs l r : List Char} :
    cut? sep cs = some (l, r) ↔ cs = l ++ sep :: r ∧ sep ∉ l := by
  refine ⟨eq_append_of_cut?, ?_⟩
  rintro ⟨rfl, hl⟩
  induction l with
  | nil => simp [cut?]
  | cons c l ih =>
      obtain ⟨hc, hl⟩ := not_or.1 (mt List.mem_cons.2 hl)
      rw [List.cons_append, cut?, if_neg (Ne.symm hc), ih hl]
      rfl

/-! ## Blanks at both ends -/

structure Trims (cs t : List Char) : Prop where
  blanks : ∃ before after, cs = before ++ t ++ after ∧ (∀ c ∈ before, isBlank c = true) ∧
    ∀ c ∈ after, isBlank c = true
  head : ∀ c ∈ t.head?, isBlank c = false
  last : ∀ c ∈ t.getLast?, isBlank c = false

theorem dropWhile_append_of_blank {before t : List Char} (hb : ∀ c ∈ before, isBlank c = true)
    (ht : ∀ c ∈ t.head?, isBlank c = false) : (before ++ t).dropWhile isBlank = t := by
  rw [List.dropWhile_append_of_pos hb]
  cases t with
  | nil => rfl
  | cons c t => exact List.dropWhile_cons_of_neg (by simp [ht c rfl])

theorem exists_blanks_append_dropWhile (cs : List Char) :
    ∃ before, cs = before ++ cs.dropWhile isBlank ∧ (∀ c ∈ before, isBlank c = true) ∧
      ∀ c ∈ (cs.dropWhile isBlank).head?, isBlank c = false := by
  refine ⟨cs.takeWhile isBlank, (List.takeWhile_append_dropWhile).symm,
    fun c hc => List.mem_takeWhile_imp hc, fun c hc => ?_⟩
  have hhead := List.head?_dropWhile_not isBlank cs
  rw [Option.mem_def.1 hc] at hhead
  simpa using hhead

theorem trimChars_eq_iff {cs t : List Char} : trimChars cs = t ↔ Trims cs t := by
  constructor
  · rintro rfl
    -- first the blanks before the text go, then, on the reversed text, those behind it
    obtain ⟨before, hcs, hbefore, hhead⟩ := exists_blanks_append_dropWhile cs
    obtain ⟨after, hrev, hafter, hlast⟩ :=
      exists_blanks_append_dropWhile (cs.dropWhile isBlank).reverse
    have hmid : cs.dropWhile isBlank = trimChars cs ++ after.reverse := by
      rw [← List.reverse_reverse (cs.dropWhile isBlank), hrev, List.reverse_append]
      rfl
    refine ⟨⟨before, after.reverse, ?_, hbefore, ?_⟩, ?_, ?_⟩
    · rw [List.append_assoc, ← hmid]
      exact hcs
    · simpa using hafter
    · intro c hc
      refine hhead c ?_
      rw [hmid, List.head?_append, Option.mem_def.1 hc]
      rfl
    · intro c hc
      refine hlast c ?_
      rwa [trimChars, List.getLast?_reverse] at hc
  · rintro ⟨⟨before, after, rfl, hbefore, hafter⟩, hhead, hlast⟩
    have hlast' : ∀ c ∈ t.reverse.head?, isBlank c = false := by simpa using hlast
    have hback : (after.reverse ++ t.reverse).dropWhile isBlank = t.reverse :=
      dropWhile_append_of_blank (by simpa using hafter) hlast'
    rw [trimChars, List.append_assoc]
    cases t with
    | nil =>
        have hall : ∀ c ∈ before ++ after, isBlank c = true := by
          simpa [or_imp, forall_and] using ⟨hbefore, hafter⟩
        rw [List.nil_append, List.dropWhile_eq_nil_iff.2 hall]
        rfl
    | cons c t =>
        have hhead' : ∀ d ∈ (c :: t ++ after).head?, isBlank d = false := hhead
        rw [dropWhile_append_of_blank hbefore hhead', List.reverse_append, hback,
          List.reverse_reverse]

/-! ## Numerals -/

/-- An optional plus sign and then one or more decimal digits, which stand for `n`. -/
def Numeral (cs : List Char) (n : Nat) : Prop :=
  ∃ ds, (cs = ds ∨ cs = '+' :: ds) ∧ ds ≠ [] ∧ (∀ d ∈ ds, d.isDigit = true) ∧
    n = Nat.ofDigits 10 (ds.reverse.map fun d => d.toNat - '0'.toNat)

theorem digit?_ten_eq_some_iff {c : Char} {d : Nat} :
    digit? 10 c = some d ↔ c.isDigit = true ∧ d = c.toNat - '0'.toNat := by
  have hdigit : c.isDigit = true ↔ '0' ≤ c ∧ c ≤ '9' := by
    rw [Char.isDigit, Bool.and_eq_true, decide_eq_true_iff, decide_eq_true_iff]
    exact Iff.rfl
  unfold digit?
  rw [hdigit]
  dsimp only
  by_cases hc : '0' ≤ c ∧ c ≤ '9'
  · have hlt : c.toNat - '0'.toNat < 10 := by
      have h9 : c.toNat ≤ 57 := hc.2
      have h0 : '0'.toNat = 48 := rfl
      omega
    rw [if_pos hc, if_pos hlt, Option.some_inj]
    exact ⟨fun h => ⟨hc, h.symm⟩, fun h => h.2.symm⟩
  · -- the letters of larger bases stand for 10 and more
    rw [if_neg hc, if_neg (by split_ifs <;> omega)]
    exact iff_of_false nofun fun h => hc h.1

theorem extend?_ten_eq_some_iff {m n : Nat} {cs : List Char} :
    extend? 10 m cs = some n ↔ (∀ d ∈ cs, d.isDigit = true) ∧
      n = Nat.ofDigits 10 (cs.reverse.map fun d => d.toNat - '0'.toNat) + 10 ^ cs.length * m := by
  induction cs generalizing m with
  | nil =>
      have hm : m = n ↔ n = m := eq_comm
      simpa [extend?] using hm
  | cons c cs ih =>
      rw [extend?, List.forall_mem_cons, List.reverse_cons, List.map_append, Nat.ofDigits_append,
        List.length_map, List.length_reverse, List.length_cons, pow_succ]
      cases hd : digit? 10 c with
      | none =>
          refine iff_of_false nofun fun h => ?_
          have hc := digit?_ten_eq_some_iff.2 ⟨h.1.1, rfl⟩
          rw [hd] at hc
          cases hc
      | some d =>
          obtain ⟨hc, rfl⟩ := digit?_ten_eq_some_iff.1 hd
          rw [ih, and_assoc, and_iff_right hc]
          refine and_congr_right fun _ => ?_
          have hone : Nat.ofDigits 10 [c.toNat - '0'.toNat] = c.toNat - '0'.toNat :=
            Nat.ofDigits_singleton
          rw [List.map_cons, List.map_nil, hone]
          constructor <;> intro h <;> rw [h] <;> ring

theorem unsigned?_ten_eq_some_iff {n : Nat} {cs : List Char} :
    unsigned? 10 cs = some n ↔ cs ≠ [] ∧ (∀ d ∈ cs, d.isDigit = true) ∧
      n = Nat.ofDigits 10 (cs.reverse.map fun d => d.toNat - '0'.toNat) := by
  cases cs with
  | nil => simp [unsigned?]
  | cons c cs =>
      rw [unsigned?, extend?_ten_eq_some_iff, Nat.mul_zero, Nat.add_zero,
        and_iff_right (List.cons_ne_nil c cs)]

theorem natural?_eq_some_iff {bound n : Nat} {cs : List Char} :
    natural? 10 bound cs = some n ↔ Numeral cs n ∧ n < bound := by
  have hplus : ∀ ds : List Char, (∀ d ∈ '+' :: ds, d.isDigit = true) → False :=
    fun ds h => absurd (h '+' List.mem_cons_self) (by decide)
  unfold natural?
  rw [Option.filter_eq_some_iff]
  refine and_congr ?_ decide_eq_true_iff
  split
  · rename_i rest
    rw [unsigned?_ten_eq_some_iff]
    constructor
    · exact fun h => ⟨rest, Or.inr rfl, h⟩
    · rintro ⟨ds, rfl | hds, h⟩
      · exact (hplus rest h.2.1).elim
      · rwa [(List.cons.inj hds).2]
  · rename_i hne
    rw [unsigned?_ten_eq_some_iff]
    constructor
    · exact fun h => ⟨cs, Or.inl rfl, h⟩
    · rintro ⟨ds, rfl | hds, h⟩
      · exact h
      · exact absurd hds (hne ds)

end HotLoop.Text
