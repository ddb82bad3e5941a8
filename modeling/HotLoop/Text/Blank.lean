/-!
# Blanks and pieces of a text

The blank characters are the 25 of the Unicode property White_Space. Texts are trimmed of blanks at
both ends and cut at a separator: `intercalate_pieces` says that cutting loses nothing.
-/

namespace HotLoop.Text

/-- Closed ranges of code points, in ascending order. -/
def blankRanges : List (Nat × Nat) :=
  [(0x09, 0x0D), (0x20, 0x20), (0x85, 0x85), (0xA0, 0xA0), (0x1680, 0x1680), (0x2000, 0x200A),
   (0x2028, 0x2029), (0x202F, 0x202F), (0x205F, 0x205F), (0x3000, 0x3000)]

def isBlank (c : Char) : Bool := blankRanges.any fun r => r.1 ≤ c.toNat && c.toNat ≤ r.2

def trimChars (cs : List Char) : List Char :=
  ((cs.dropWhile isBlank).reverse.dropWhile isBlank).reverse

def trim (s : String) : String := String.ofList (trimChars s.toList)

/-- The pieces between the separators, empty ones included: one more than there are separators. -/
def pieces (sep : Char) : List Char → List (List Char)
  | [] => [[]]
  | c :: cs =>
    if c = sep then [] :: pieces sep cs
    else match pieces sep cs with
      | [] => [[c]]
      | p :: ps => (c :: p) :: ps

/-- What stands before and after the first separator. -/
def cut? (sep : Char) : List Char → Option (List Char × List Char)
  | [] => none
  | c :: cs =>
    if c = sep then some ([], cs) else (cut? sep cs).map fun p => (c :: p.1, p.2)

theorem pieces_ne_nil (sep : Char) (cs : List Char) : pieces sep cs ≠ [] := by
  cases cs with
  | nil => simp [pieces]
  | cons c cs =>
    simp only [pieces]
    split
    · simp
    · split <;> simp

theorem intercalate_pieces (sep : Char) (cs : List Char) :
    [sep].intercalate (pieces sep cs) = cs := by
  induction cs with
  | nil => rfl
  | cons c cs ih =>
    have hne := pieces_ne_nil sep cs
    simp only [pieces]
    by_cases h : c = sep
    · rw [if_pos h]
      cases hp : pieces sep cs with
      | nil => exact absurd hp hne
      | cons p ps =>
        rw [hp] at ih
        rw [List.intercalate_cons_cons, ih, h]
        rfl
    · rw [if_neg h]
      cases hp : pieces sep cs with
      | nil => exact absurd hp hne
      | cons p ps =>
        rw [hp] at ih
        cases ps with
        | nil => simp_all [List.intercalate]
        | cons q qs =>
          rw [List.intercalate_cons_cons] at ih
          rw [List.intercalate_cons_cons, ← ih]
          rfl

theorem eq_append_of_cut? {sep : Char} {cs l r : List Char} (h : cut? sep cs = some (l, r)) :
    cs = l ++ sep :: r ∧ sep ∉ l := by
  induction cs generalizing l with
  | nil => simp [cut?] at h
  | cons c cs ih =>
    simp only [cut?] at h
    split at h
    · rename_i hc
      simp only [Option.some.injEq, Prod.mk.injEq] at h
      obtain ⟨rfl, rfl⟩ := h
      simp [hc]
    · rename_i hc
      obtain ⟨p, hp, he⟩ := Option.map_eq_some_iff.1 h
      simp only [Prod.mk.injEq] at he
      obtain ⟨rfl, rfl⟩ := he
      obtain ⟨h₁, h₂⟩ := ih hp
      exact ⟨by simp [h₁], by simp [h₂, Ne.symm hc]⟩

end HotLoop.Text
