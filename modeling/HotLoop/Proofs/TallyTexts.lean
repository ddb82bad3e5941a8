import HotLoop.Lifecycle.Tally
import HotLoop.Proofs.KeyTexts

/-!
# What a summary tells

The lines of a summary carry the counters of the tally that is summed up, and nothing is lost on the
way: two tallies with the same summary are the same. Main statement: `eq_of_summary`.
-/

namespace HotLoop

open Trace

/-! ## Numbers -/

namespace Text

theorem digits_append_inj {m n : Nat} {s t : List Char} (hs : ∀ c ∈ s.head?, c.isDigit = false)
    (ht : ∀ c ∈ t.head?, c.isDigit = false)
    (h : Nat.toDigits 10 m ++ s = Nat.toDigits 10 n ++ t) : m = n ∧ s = t := by
  obtain ⟨hdigits, hrest⟩ := append_inj_of_stop (fun _ => isDigit_of_mem_digits)
    (fun _ => isDigit_of_mem_digits) hs ht h
  exact ⟨digits_inj hdigits, hrest⟩

/-- Numbers with the same words behind them. -/
theorem digits_words_inj {m n : Nat} {w : String} {s t : List Char}
    (hw : w.toList.head?.map Char.isDigit = some false)
    (h : Nat.toDigits 10 m ++ (w.toList ++ s) = Nat.toDigits 10 n ++ (w.toList ++ t)) :
    m = n ∧ s = t := by
  have hhead : ∀ u, ∀ c ∈ (w.toList ++ u).head?, c.isDigit = false := by
    intro u c hc
    cases hl : w.toList with
    | nil =>
        rw [hl] at hw
        cases hw
    | cons d ds =>
        rw [hl] at hw hc
        rw [← Option.some.inj hc]
        exact Option.some.inj hw
  obtain ⟨hmn, hst⟩ := digits_append_inj (hhead s) (hhead t) h
  exact ⟨hmn, List.append_cancel_left hst⟩

end Text

/-! ## Causes -/

namespace Trace.Abort

theorem toList_toString_custom (n : Nat) :
    (toString (custom n)).toList = "custom(".toList ++ (Nat.toDigits 10 n ++ [')']) := by
  change ("custom(" ++ Nat.repr n ++ ")").toList = _
  rw [String.toList_append, String.toList_append, Nat.toList_repr, List.append_assoc]
  rfl

theorem ne_equals_of_mem (a : Abort) : ∀ c ∈ (toString a).toList, (c != '=') = true := by
  cases a with
  | custom n =>
      intro c hc
      rw [toList_toString_custom] at hc
      rcases List.mem_append.1 hc with hc | hc
      · exact List.all_eq_true.1 (rfl : "custom(".toList.all (· != '=') = true) c hc
      · rcases List.mem_append.1 hc with hc | hc
        · exact bne_iff_ne.2 (Text.ne_of_isDigit (Text.isDigit_of_mem_digits hc) (by decide))
        · rw [List.mem_singleton.1 hc]
          rfl
  | _ => exact List.all_eq_true.1 rfl

theorem exists_toString_cons (a : Abort) :
    ∃ c cs, (toString a).toList = c :: cs ∧ Text.isPart c = true := by
  cases a with
  | custom n => exact ⟨_, _, toList_toString_custom n, by decide⟩
  | _ => exact ⟨_, _, rfl, by decide⟩

theorem toList_toString_inj {a b : Abort} (h : (toString a).toList = (toString b).toList) :
    a = b := by
  -- only the name of a custom cause has a parenthesis
  have hcustom : ∀ {n : Nat} {c : Abort}, '(' ∉ (toString c).toList →
      (toString (custom n)).toList ≠ (toString c).toList := by
    intro n c hc he
    apply hc
    rw [← he, toList_toString_custom]
    exact List.mem_append_left _ (by decide)
  cases a with
  | custom m =>
      cases b with
      | custom n =>
          rw [toList_toString_custom, toList_toString_custom] at h
          obtain ⟨hdigits, -⟩ := List.append_inj' (List.append_cancel_left h) rfl
          rw [Text.digits_inj hdigits]
      | _ => exact absurd h (hcustom (by decide))
  | _ =>
      cases b with
      | custom n => exact absurd h.symm (hcustom (by decide))
      | _ => first | rfl | exact absurd h (by decide)

end Trace.Abort

namespace Lifecycle

/-! ## Counts by cause -/

namespace AbortCounts

def charsOf (e : Abort × Nat) : List Char := (toString e.1).toList ++ '=' :: Nat.toDigits 10 e.2

theorem charsOf_append_inj {e f : Abort × Nat} {s t : List Char} (hs : Text.Behind s)
    (ht : Text.Behind t) (h : charsOf e ++ s = charsOf f ++ t) : e = f ∧ s = t := by
  have hstop : ∀ {u : List Char}, Text.Behind u → ∀ c ∈ u.head?, c.isDigit = false := by
    intro u hu c hc
    have hpart := hu c hc
    rw [← Bool.not_eq_true]
    intro hdigit
    have hcomma := Text.ne_of_isDigit hdigit (d := ',') (by decide)
    have hclose := Text.ne_of_isDigit hdigit (d := ')') (by decide)
    simp [Text.isPart, hcomma, hclose] at hpart
  have hequals : ∀ {u : List Char}, ∀ c ∈ ('=' :: u).head?, (c != '=') = false := by
    intro u c hc
    rw [← Option.some.inj hc]
    rfl
  rw [charsOf, charsOf, List.append_assoc, List.append_assoc] at h
  obtain ⟨hcause, hrest⟩ := Text.append_inj_of_stop (Abort.ne_equals_of_mem e.1)
    (Abort.ne_equals_of_mem f.1) hequals hequals h
  obtain ⟨hcount, hst⟩ := Text.digits_append_inj (hstop hs) (hstop ht) (List.cons.inj hrest).2
  exact ⟨Prod.ext (Abort.toList_toString_inj hcause) hcount, hst⟩

def charsOfAll : List (Abort × Nat) → List Char
  | [] => []
  | es => ' ' :: '(' :: Text.charsWithin charsOf es

theorem toList_causes (es : List (Abort × Nat)) :
    (if es.map (fun e => toString e.1 ++ "=" ++ toString e.2) = [] then ""
      else " (" ++ ", ".intercalate (es.map fun e => toString e.1 ++ "=" ++ toString e.2) ++
        ")").toList = charsOfAll es := by
  cases es with
  | nil => rfl
  | cons e es =>
      have hcause : ∀ e : Abort × Nat,
          (toString e.1 ++ "=" ++ toString e.2).toList = charsOf e := by
        intro e
        have hcount : (toString e.2).toList = Nat.toDigits 10 e.2 := Nat.toList_repr
        rw [String.toList_append, String.toList_append, hcount, List.append_assoc]
        rfl
      have hmap : ((e :: es).map fun e => toString e.1 ++ "=" ++ toString e.2).map String.toList =
          (e :: es).map charsOf := by
        rw [List.map_map]
        exact List.map_congr_left fun e _ => hcause e
      have hcauses : (e :: es).map (fun e => toString e.1 ++ "=" ++ toString e.2) ≠ [] :=
        List.cons_ne_nil _ _
      rw [if_neg hcauses, String.toList_append, String.toList_append, String.toList_intercalate,
        hmap, List.append_assoc]
      exact congrArg (' ' :: '(' :: ·) (Text.intercalate_chars charsOf (e :: es))

theorem charsOfAll_inj {es fs : List (Abort × Nat)} (h : charsOfAll es = charsOfAll fs) :
    es = fs := by
  cases es with
  | nil =>
      cases fs with
      | nil => rfl
      | cons f fs => cases h
  | cons e es =>
      cases fs with
      | nil => cases h
      | cons f fs =>
          have hstart : ∀ e, True → ∃ c cs, charsOf e = c :: cs ∧ Text.isPart c = true := by
            intro e _
            obtain ⟨c, cs, hc, hpart⟩ := e.1.exists_toString_cons
            exact ⟨c, cs ++ '=' :: Nat.toDigits 10 e.2, by rw [charsOf, hc]; rfl, hpart⟩
          exact Text.charsWithin_inj (fun _ _ hs ht => charsOf_append_inj hs ht) hstart
            (fun _ _ => trivial) (fun _ _ => trivial) (List.cons.inj (List.cons.inj h).2).2

theorem head?_charsOfAll (es : List (Abort × Nat)) :
    ∀ c ∈ (charsOfAll es ++ ['\n']).head?, c.isDigit = false := by
  cases es with
  | nil => exact fun c hc => Option.some.inj hc ▸ rfl
  | cons e es => exact fun c hc => Option.some.inj hc ▸ rfl

end AbortCounts

/-! ## Summaries -/

namespace Tally

theorem toList_summary {t : Tally} {text : String} (h : t.summary = .ok text) :
    text.toList = "=== JIT Portal Summary ===\nLoops: ".toList ++
      (Nat.toDigits 10 t.loopsCompiled ++ (" compiled, ".toList ++
      (Nat.toDigits 10 t.loopsRetired ++ (" retired\nBridges: ".toList ++
      (Nat.toDigits 10 t.bridgesCompiled ++ (" compiled, ".toList ++
      (Nat.toDigits 10 t.bridgesRetired ++ (" retired\nAborts: ".toList ++
      (Nat.toDigits 10 t.aborts.total ++ (AbortCounts.charsOfAll t.aborts.entries ++
        ['\n'])))))))))) := by
  have hnat : ∀ n : Nat, (toString n).toList = Nat.toDigits 10 n := fun n => Nat.toList_repr
  have hloops : "=== JIT Portal Summary ===\nLoops: ".toList =
      "=== JIT Portal Summary ===\n".toList ++ "Loops: ".toList := by decide
  have hbridges : " retired\nBridges: ".toList = " retired\n".toList ++ "Bridges: ".toList := by
    decide
  have haborts : " retired\nAborts: ".toList = " retired\n".toList ++ "Aborts: ".toList := by decide
  have hend : "\n".toList = ['\n'] := by decide
  unfold summary totalAborts at h
  split_ifs at h with hfits
  · cases h
    simp only [String.toList_append, hnat, hloops, hbridges, haborts, hend, List.append_assoc,
      AbortCounts.toList_causes]
  · cases h

/-- A summary tells all counters. -/
theorem eq_of_summary {t t' : Tally} {text : String} (h : t.summary = .ok text)
    (h' : t'.summary = .ok text) : t = t' := by
  have hchars := (toList_summary h).symm.trans (toList_summary h')
  obtain ⟨hloops, hchars⟩ := Text.digits_words_inj rfl (List.append_cancel_left hchars)
  obtain ⟨hloopsRetired, hchars⟩ := Text.digits_words_inj rfl hchars
  obtain ⟨hbridges, hchars⟩ := Text.digits_words_inj rfl hchars
  obtain ⟨hbridgesRetired, hchars⟩ := Text.digits_words_inj rfl hchars
  obtain ⟨-, hchars⟩ := Text.digits_append_inj (AbortCounts.head?_charsOfAll _)
    (AbortCounts.head?_charsOfAll _) hchars
  have haborts := AbortCounts.charsOfAll_inj (List.append_cancel_right hchars)
  obtain ⟨⟨entries, _⟩, _, _, _, _⟩ := t
  obtain ⟨⟨entries', _⟩, _, _, _, _⟩ := t'
  cases haborts
  cases hloops
  cases hloopsRetired
  cases hbridges
  cases hbridgesRetired
  rfl

end Tally

end Lifecycle

end HotLoop
