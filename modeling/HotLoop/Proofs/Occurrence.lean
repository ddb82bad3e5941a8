import Mathlib.Tactic

/-!
# What happens along a run

A run folds the steps of a list. `Occurs` says that one of the steps does something, and `Since` that
one of them does something that none behind it undoes.
-/

namespace HotLoop

variable {σ α : Type} (step : σ → α → σ) (P Q : σ → α → Prop)

/-- One of the steps, on the way from `w`, does `P`. -/
def Occurs (w : σ) : List α → Prop
  | [] => False
  | a :: as => P w a ∨ Occurs (step w a) as

/-- One of the steps, on the way from `w`, does `P`, and none behind it does `Q`. -/
def Since (w : σ) : List α → Prop
  | [] => False
  | a :: as => P w a ∧ ¬ Occurs step Q (step w a) as ∨ Since (step w a) as

variable {step P Q} {w : σ} {as bs : List α} {a : α}

theorem occurs_append :
    Occurs step P w (as ++ bs) ↔ Occurs step P w as ∨ Occurs step P (as.foldl step w) bs := by
  induction as generalizing w with
  | nil => simp [Occurs]
  | cons a as ih => simp only [List.cons_append, List.foldl_cons, Occurs, ih, or_assoc]

theorem occurs_concat :
    Occurs step P w (as ++ [a]) ↔ Occurs step P w as ∨ P (as.foldl step w) a := by
  rw [occurs_append]
  simp [Occurs]

theorem occurs_iff :
    Occurs step P w as ↔ ∃ before a after, as = before ++ a :: after ∧ P (before.foldl step w) a := by
  induction as generalizing w with
  | nil => simp [Occurs]
  | cons b as ih =>
      rw [Occurs, ih]
      constructor
      · rintro (hb | ⟨before, a, after, rfl, ha⟩)
        · exact ⟨[], b, as, rfl, hb⟩
        · exact ⟨b :: before, a, after, rfl, ha⟩
      · rintro ⟨before, a, after, he, ha⟩
        cases before with
        | nil =>
            cases he
            exact Or.inl ha
        | cons c before =>
            cases he
            exact Or.inr ⟨before, a, after, rfl, ha⟩

/-- Behind the last step that does `P`, none does `Q`. -/
theorem since_concat :
    Since step P Q w (as ++ [a]) ↔
      Since step P Q w as ∧ ¬ Q (as.foldl step w) a ∨ P (as.foldl step w) a := by
  induction as generalizing w with
  | nil => simp [Since, Occurs]
  | cons b as ih =>
      simp only [List.cons_append, List.foldl_cons, Since, ih, occurs_concat]
      tauto

/-- What begins just with `P` and ends just with `Q` holds since the last `P`. -/
theorem since_iff_of_step (Φ : σ → Prop) (hw : ¬ Φ w)
    (hstep : ∀ (as : List α) a, Φ (step (as.foldl step w) a) ↔
      Φ (as.foldl step w) ∧ ¬ Q (as.foldl step w) a ∨ P (as.foldl step w) a) (as : List α) :
    Φ (as.foldl step w) ↔ Since step P Q w as := by
  induction as using List.reverseRecOn with
  | nil => simpa [Since] using hw
  | append_singleton as a ih =>
      rw [List.foldl_append, List.foldl_cons, List.foldl_nil, hstep, since_concat, ih]

theorem Since.occurs (h : Since step P Q w as) : Occurs step P w as := by
  induction as generalizing w with
  | nil => exact h
  | cons a as ih => exact h.imp And.left ih

theorem split_concat {past rest : List α} {x : α} (he : as ++ [x] = past ++ a :: rest) :
    past = as ∧ a = x ∧ rest = [] ∨ ∃ rest', rest = rest' ++ [x] ∧ as = past ++ a :: rest' := by
  induction rest using List.reverseRecOn with
  | nil =>
      obtain ⟨rfl, hx⟩ := List.append_inj' he rfl
      exact Or.inl ⟨rfl, (List.cons.inj hx).1.symm, rfl⟩
  | append_singleton rest y _ =>
      rw [← List.cons_append, ← List.append_assoc] at he
      obtain ⟨has, hy⟩ := List.append_inj' he rfl
      obtain rfl := (List.cons.inj hy).1
      exact Or.inr ⟨rest, rfl, has⟩

/-! ## The last one that counts -/

variable {β : Type} (f : α → Option β) (b : β)

theorem getLast?_filterMap_concat (as : List α) (a : α) :
    ((as ++ [a]).filterMap f).getLast?.getD b = (f a).getD ((as.filterMap f).getLast?.getD b) := by
  rw [List.filterMap_append]
  cases h : f a with
  | none => simp [h]
  | some y => simp [h]

theorem getLast?_filterMap_cons (a : α) (as : List α) :
    ((a :: as).filterMap f).getLast?.getD b = (as.filterMap f).getLast?.getD ((f a).getD b) := by
  cases h : f a with
  | none => simp [h]
  | some y => simp [h, List.getLast?_cons]

end HotLoop
