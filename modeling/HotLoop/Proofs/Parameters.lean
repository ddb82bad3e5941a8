import HotLoop.Proofs.Occurrence
import HotLoop.Proofs.Spelling
import HotLoop.Settings.Basic
import Mathlib.Data.List.DropRight
import Mathlib.Data.List.Forall2

/-!
# Parameter texts

An item of a parameter text asks for an edit of the settings if it is spelled as one: `Spells` is
the grammar. Items take effect one after another, but what they come to can be read off the list of
edits: the last assignment behind the last reset counts (`LastWins`). A text is accepted just if all
of its items are in the grammar and no setting that must be positive ends at zero.
-/

namespace HotLoop

def PositiveSetting.bound : PositiveSetting → Nat
  | .threshold => 0x100000000
  | .traceEagerness => 0x100000000
  | .traceLimit => 0x10000000000000000

namespace Settings

def number (s : Settings) : PositiveSetting → Nat
  | .threshold => s.threshold
  | .traceEagerness => s.traceEagerness
  | .traceLimit => s.traceLimit

def setNumber (s : Settings) (n : Nat) : PositiveSetting → Settings
  | .threshold => { s with threshold := n }
  | .traceEagerness => { s with traceEagerness := n }
  | .traceLimit => { s with traceLimit := n }

/-! ## The grammar of items -/

inductive Edit where
  | off
  | reset
  | number (p : PositiveSetting) (n : Nat)
  | fold (b : Bool)
  deriving DecidableEq

def flagWords : List (String × Bool) :=
  [("1", true), ("true", true), ("on", true), ("0", false), ("false", false), ("off", false)]

/-- The item is spelled as the edit. An assignment is cut at its first equals sign. -/
inductive Spells : List Char → Edit → Prop
  | off : Spells "off".toList .off
  | reset : Spells "default".toList .reset
  | number {name value digits : List Char} {p : PositiveSetting} {n : Nat} (hcut : '=' ∉ name)
      (hname : Text.Trims name p.name.toList) (hvalue : Text.Trims value digits)
      (hdigits : Text.Numeral digits n) (hn : n < p.bound) :
      Spells (name ++ '=' :: value) (.number p n)
  | fold {name value : List Char} {word : String} {b : Bool} (hcut : '=' ∉ name)
      (hname : Text.Trims name "enable_quasi_immut".toList)
      (hvalue : Text.Trims value word.toList) (hword : (word, b) ∈ flagWords) :
      Spells (name ++ '=' :: value) (.fold b)

def edit (s : Settings) : Edit → Settings
  | .off => { s with enabled := false }
  | .reset => {}
  | .number p n => s.setNumber n p
  | .fold b => { s with foldFields := b }

theorem trim_ofList_eq_iff {cs : List Char} {w : String} :
    Text.trim (String.ofList cs) = w ↔ Text.Trims cs w.toList := by
  rw [← Text.trimChars_eq_iff, Text.trim, String.toList_ofList]
  constructor
  · rintro rfl
    rw [String.toList_ofList]
  · intro h
    rw [h, String.ofList_toList]

theorem readNat_eq_ok_iff {bound n : Nat} {name : String} {value : List Char} :
    readNat bound name (String.ofList value) = .ok n ↔
      ∃ digits, Text.Trims value digits ∧ Text.Numeral digits n ∧ n < bound := by
  have hn : Text.natural? 10 bound (Text.trimChars value) = some n ↔
      ∃ digits, Text.Trims value digits ∧ Text.Numeral digits n ∧ n < bound := by
    simp only [Text.natural?_eq_some_iff, ← Text.trimChars_eq_iff, exists_eq_left']
  rw [← hn, readNat, String.toList_ofList]
  cases Text.natural? 10 bound (Text.trimChars value) <;> simp

theorem readFlag_eq_ok_iff {name : String} {value : List Char} {b : Bool} :
    readFlag name (String.ofList value) = .ok b ↔
      ∃ word, Text.Trims value word.toList ∧ (word, b) ∈ flagWords := by
  simp only [← trim_ofList_eq_iff, exists_eq_left']
  unfold readFlag
  split <;> simp_all [flagWords]

theorem assign_number {p : PositiveSetting} {name : List Char} (value : String) (s : Settings)
    (hname : Text.Trims name p.name.toList) :
    s.assign (String.ofList name) value =
      (readNat p.bound (String.ofList name) value).map fun n => s.setNumber n p := by
  unfold assign
  rw [trim_ofList_eq_iff.2 hname]
  cases p <;> rfl

theorem assign_fold {name : List Char} (value : String) (s : Settings)
    (hname : Text.Trims name "enable_quasi_immut".toList) :
    s.assign (String.ofList name) value =
      (readFlag (String.ofList name) value).map fun b => { s with foldFields := b } := by
  unfold assign
  rw [trim_ofList_eq_iff.2 hname]
  rfl

theorem name_cases (name : List Char) :
    (∃ p : PositiveSetting, Text.Trims name p.name.toList) ∨
      Text.Trims name "enable_quasi_immut".toList ∨
        ∀ (s : Settings) (value : String), s.assign (String.ofList name) value =
          .error (.parameter (Text.trim (String.ofList name)) .unknown) := by
  simp only [← trim_ofList_eq_iff]
  by_cases hfold : Text.trim (String.ofList name) = "enable_quasi_immut"
  · exact Or.inr (Or.inl hfold)
  by_cases hnumber : ∃ p : PositiveSetting, Text.trim (String.ofList name) = p.name
  · exact Or.inl hnumber
  refine Or.inr (Or.inr fun s value => ?_)
  unfold assign
  split
  · exact absurd ⟨.threshold, ‹_›⟩ hnumber
  · exact absurd ⟨.traceEagerness, ‹_›⟩ hnumber
  · exact absurd ⟨.traceLimit, ‹_›⟩ hnumber
  · exact absurd ‹_› hfold
  · rfl

theorem map_eq_ok_iff {α β : Type} {r : Except Error α} {f : α → β} {b : β} :
    r.map f = .ok b ↔ ∃ a, r = .ok a ∧ b = f a := by
  cases r <;> simp [Except.map, eq_comm]

theorem applyItem_assign {name value : List Char} (hcut : '=' ∉ name) (s : Settings) :
    s.applyItem (name ++ '=' :: value) = s.assign (String.ofList name) (String.ofList value) := by
  have hne : ∀ word : String, '=' ∉ word.toList → name ++ '=' :: value ≠ word.toList := by
    intro word hword he
    exact hword (he ▸ List.mem_append_right _ List.mem_cons_self)
  unfold applyItem
  rw [if_neg (hne _ (by decide)), if_neg (hne _ (by decide)),
    Text.cut?_eq_some_iff.2 ⟨rfl, hcut⟩]

/-- An item is applied just if it is spelled as an edit. -/
theorem applyItem_eq_ok_iff {s s' : Settings} {item : List Char} :
    s.applyItem item = .ok s' ↔ ∃ x, Spells item x ∧ s' = s.edit x := by
  constructor
  · intro h
    unfold applyItem at h
    split_ifs at h with hoff hreset
    · exact ⟨.off, hoff ▸ .off, (Except.ok.inj h).symm⟩
    · exact ⟨.reset, hreset ▸ .reset, (Except.ok.inj h).symm⟩
    · cases hc : Text.cut? '=' item with
      | none =>
          rw [hc] at h
          cases h
      | some p =>
          obtain ⟨name, value⟩ := p
          rw [hc] at h
          obtain ⟨rfl, hcut⟩ := Text.cut?_eq_some_iff.1 hc
          dsimp only at h
          rcases name_cases name with ⟨p, hname⟩ | hname | hunknown
          · rw [assign_number _ s hname] at h
            obtain ⟨n, hn, rfl⟩ := map_eq_ok_iff.1 h
            obtain ⟨digits, hvalue, hdigits, hlt⟩ := readNat_eq_ok_iff.1 hn
            exact ⟨.number p n, .number hcut hname hvalue hdigits hlt, rfl⟩
          · rw [assign_fold _ s hname] at h
            obtain ⟨b, hb, rfl⟩ := map_eq_ok_iff.1 h
            obtain ⟨word, hvalue, hword⟩ := readFlag_eq_ok_iff.1 hb
            exact ⟨.fold b, .fold hcut hname hvalue hword, rfl⟩
          · rw [hunknown s] at h
            cases h
  · rintro ⟨x, hx, rfl⟩
    cases hx with
    | off => rfl
    | reset => rfl
    | @number name value digits p n hcut hname hvalue hdigits hn =>
        rw [applyItem_assign hcut, assign_number _ s hname,
          readNat_eq_ok_iff.2 ⟨digits, hvalue, hdigits, hn⟩]
        rfl
    | @fold name value word b hcut hname hvalue hword =>
        rw [applyItem_assign hcut, assign_fold _ s hname,
          readFlag_eq_ok_iff.2 ⟨word, hvalue, hword⟩]
        rfl

theorem applyItem_error {s : Settings} {item : List Char} {e : Error}
    (h : s.applyItem item = .error e) : ∃ name problem, e = .parameter name problem := by
  have hnat : ∀ {bound : Nat} {name value : String} {e : Error},
      readNat bound name value = .error e → ∃ name problem, e = .parameter name problem := by
    intro bound name value e h
    unfold readNat at h
    split at h <;> cases h
    exact ⟨_, _, rfl⟩
  have hflag : ∀ {name value : String} {e : Error},
      readFlag name value = .error e → ∃ name problem, e = .parameter name problem := by
    intro name value e h
    unfold readFlag at h
    split at h <;> cases h
    exact ⟨_, _, rfl⟩
  have hmap : ∀ {α : Type} {r : Except Error α} {f : α → Settings} {e : Error},
      r.map f = .error e → r = .error e := by
    intro α r f e h
    cases r with
    | ok a => cases h
    | error d => cases h; rfl
  unfold applyItem at h
  split_ifs at h
  cases hc : Text.cut? '=' item with
  | none =>
      rw [hc] at h
      cases h
      exact ⟨_, _, rfl⟩
  | some p =>
      rw [hc] at h
      dsimp only at h
      rcases name_cases p.1 with ⟨q, hname⟩ | hname | hunknown
      · rw [assign_number _ s hname] at h
        exact hnat (hmap h)
      · rw [assign_fold _ s hname] at h
        exact hflag (hmap h)
      · rw [hunknown s] at h
        cases h
        exact ⟨_, _, rfl⟩

/-! ## Items in turn -/

theorem applyItems_spelled {items : List (List Char)} {edits : List Edit}
    (h : List.Forall₂ Spells items edits) (s : Settings) (rest : List (List Char)) :
    s.applyItems (items ++ rest) = (edits.foldl edit s).applyItems rest := by
  induction h generalizing s with
  | nil => rfl
  | cons hx _ ih =>
      rw [List.cons_append, applyItems, applyItem_eq_ok_iff.2 ⟨_, hx, rfl⟩, List.foldl_cons]
      exact ih (s.edit _)

/-- The first item that is not in the grammar ends it: what stands behind is not even read. -/
theorem applyItems_bad {bad : List Char} (hbad : ∀ x, ¬ Spells bad x) (s : Settings)
    (after : List (List Char)) :
    ∃ name problem, s.applyItems (bad :: after) = (s, .error (.parameter name problem)) := by
  rw [applyItems]
  cases h : s.applyItem bad with
  | ok s' =>
      obtain ⟨x, hx, -⟩ := applyItem_eq_ok_iff.1 h
      exact absurd hx (hbad x)
  | error e =>
      obtain ⟨name, problem, rfl⟩ := applyItem_error h
      exact ⟨name, problem, rfl⟩

/-- Either all items are in the grammar, or one of them is the first that is not. -/
theorem spelled_or_bad (items : List (List Char)) :
    (∃ edits, List.Forall₂ Spells items edits) ∨
      ∃ before bad after edits, items = before ++ bad :: after ∧
        List.Forall₂ Spells before edits ∧ ∀ x, ¬ Spells bad x := by
  induction items with
  | nil => exact Or.inl ⟨[], .nil⟩
  | cons item items ih =>
      by_cases hitem : ∃ x, Spells item x
      · obtain ⟨x, hx⟩ := hitem
        rcases ih with ⟨edits, h⟩ | ⟨before, bad, after, edits, rfl, h, hbad⟩
        · exact Or.inl ⟨x :: edits, .cons hx h⟩
        · exact Or.inr ⟨item :: before, bad, after, x :: edits, rfl, .cons hx h, hbad⟩
      · exact Or.inr ⟨[], item, items, [], rfl, .nil, not_exists.1 hitem⟩

/-! ## The last assignment counts -/

namespace Edit

def number? (p : PositiveSetting) : Edit → Option Nat
  | .number q n => if q = p then some n else none
  | _ => none

def fold? : Edit → Option Bool
  | .fold b => some b
  | _ => none

end Edit

/-- The edits behind the last reset, or all of them if there is none. -/
def recent (edits : List Edit) : List Edit := edits.rtakeWhile fun x => x ≠ .reset

/-- Where settings come from that no recent edit assigns. -/
def base (c : Settings) (edits : List Edit) : Settings := if .reset ∈ edits then {} else c

/-- `s` is what the edits make of `c`, read off the list of edits without applying them. -/
structure LastWins (c : Settings) (edits : List Edit) (s : Settings) : Prop where
  number (p : PositiveSetting) : s.number p =
    ((recent edits).filterMap (Edit.number? p)).getLast?.getD ((base c edits).number p)
  foldFields : s.foldFields =
    ((recent edits).filterMap Edit.fold?).getLast?.getD (base c edits).foldFields
  enabled : s.enabled = false ↔
    .off ∈ recent edits ∨ .reset ∉ edits ∧ c.enabled = false

theorem recent_concat_reset (edits : List Edit) : recent (edits ++ [.reset]) = [] :=
  List.rtakeWhile_concat_neg _ _ _ (by simp)

theorem recent_concat {x : Edit} (hx : x ≠ .reset) (edits : List Edit) :
    recent (edits ++ [x]) = recent edits ++ [x] :=
  List.rtakeWhile_concat_pos _ _ _ (by simpa using hx)

theorem base_concat {x : Edit} (hx : x ≠ .reset) (c : Settings) (edits : List Edit) :
    base c (edits ++ [x]) = base c edits := by
  have hmem : .reset ∈ edits ++ [x] ↔ .reset ∈ edits := by simp [Ne.symm hx]
  simp only [base, hmem]

theorem number_setNumber (s : Settings) (p q : PositiveSetting) (n : Nat) :
    (s.setNumber n q).number p = if q = p then n else s.number p := by
  cases p <;> cases q <;> rfl

theorem number_edit {x : Edit} (hx : x ≠ .reset) (s : Settings) (p : PositiveSetting) :
    (s.edit x).number p = (x.number? p).getD (s.number p) := by
  cases x with
  | off => cases p <;> rfl
  | reset => exact absurd rfl hx
  | number q n =>
      rw [edit, number_setNumber, Edit.number?]
      split_ifs <;> rfl
  | fold b => cases p <;> rfl

theorem foldFields_edit {x : Edit} (hx : x ≠ .reset) (s : Settings) :
    (s.edit x).foldFields = x.fold?.getD s.foldFields := by
  cases x with
  | off => rfl
  | reset => exact absurd rfl hx
  | number q n => cases q <;> rfl
  | fold b => rfl

theorem enabled_edit {x : Edit} (hx : x ≠ .reset) (s : Settings) :
    (s.edit x).enabled = false ↔ x = .off ∨ s.enabled = false := by
  cases x with
  | off => simp [edit]
  | reset => exact absurd rfl hx
  | number q n => cases q <;> simp [edit, setNumber]
  | fold b => simp [edit]

/-- Edits in turn come to what the last of them assign. -/
theorem lastWins_foldl (c : Settings) (edits : List Edit) :
    LastWins c edits (edits.foldl edit c) := by
  induction edits using List.reverseRecOn with
  | nil => exact ⟨fun p => rfl, rfl, by simp [recent]⟩
  | append_singleton edits x ih =>
      rw [List.foldl_append, List.foldl_cons, List.foldl_nil]
      by_cases hx : x = .reset
      · subst hx
        have hbase : base c (edits ++ [.reset]) = {} := if_pos (by simp)
        refine ⟨fun p => ?_, ?_, ?_⟩
        · rw [recent_concat_reset, hbase]
          rfl
        · rw [recent_concat_reset, hbase]
          rfl
        · rw [recent_concat_reset]
          simp [edit]
      · refine ⟨fun p => ?_, ?_, ?_⟩
        · rw [number_edit hx, ih.number, recent_concat hx, base_concat hx,
            getLast?_filterMap_concat]
        · rw [foldFields_edit hx, ih.foldFields, recent_concat hx, base_concat hx,
            getLast?_filterMap_concat]
        · rw [enabled_edit hx, ih.enabled, recent_concat hx]
          simp only [List.mem_append, List.mem_singleton, Ne.symm hx, or_false, eq_comm (a := x)]
          tauto

/-! ## Whole texts -/

theorem validate_eq_ok_iff_number {s : Settings} :
    s.validate = .ok () ↔ ∀ p, s.number p ≠ 0 := by
  rw [validate_eq_ok_iff]
  constructor
  · rintro ⟨ht, he, hl⟩ p
    cases p
    · exact ht
    · exact he
    · exact hl
  · exact fun h => ⟨h .threshold, h .traceEagerness, h .traceLimit⟩

theorem validate_error {s : Settings} {e : Error} (h : s.validate = .error e) :
    ∃ p, s.number p = 0 ∧ e = .zero p := by
  unfold validate at h
  split_ifs at h with ht he hl
  · exact ⟨.threshold, ht, (Except.error.inj h).symm⟩
  · exact ⟨.traceEagerness, he, (Except.error.inj h).symm⟩
  · exact ⟨.traceLimit, hl, (Except.error.inj h).symm⟩

/-- What comes of applying the items to `c`. -/
structure Applied (c : Settings) (items : List (List Char)) (r : Settings × Except Error Unit) :
    Prop where
  /-- Accepted are the items of the grammar, if what they come to is not zero where it must not
  be. A zero that a later item replaces does no harm. -/
  accepts : r.2 = .ok () ↔ ∃ edits s, List.Forall₂ Spells items edits ∧ LastWins c edits s ∧
    ∀ p, s.number p ≠ 0
  /-- If all items are in the grammar, all take effect, also if a zero is left. -/
  effect {edits : List Edit} (h : List.Forall₂ Spells items edits) : LastWins c edits r.1 ∧
    (r.2 = .ok () ∨ ∃ p, r.1.number p = 0 ∧ r.2 = .error (.zero p))
  /-- The items before the first bad one take effect, and no other. -/
  bad {before after : List (List Char)} {item : List Char} {edits : List Edit}
    (hitems : items = before ++ item :: after) (h : List.Forall₂ Spells before edits)
    (hbad : ∀ x, ¬ Spells item x) : LastWins c edits r.1 ∧
      ∃ name problem, r.2 = .error (.parameter name problem)

theorem apply_of_applyItems {c s : Settings} {params : String}
    (h : c.applyItems (items params) = (s, .ok ())) : c.apply params = (s, s.validate) := by
  rw [apply, h]

theorem apply_of_error {c s : Settings} {params : String} {e : Error}
    (h : c.applyItems (items params) = (s, .error e)) : c.apply params = (s, .error e) := by
  rw [apply, h]

theorem apply_spelled {c : Settings} {params : String} {edits : List Edit}
    (h : List.Forall₂ Spells (items params) edits) :
    c.apply params = (edits.foldl edit c, (edits.foldl edit c).validate) := by
  have hall := applyItems_spelled h c []
  rw [List.append_nil] at hall
  exact apply_of_applyItems hall

theorem apply_bad {c : Settings} {params : String} {before after : List (List Char)}
    {item : List Char} {edits : List Edit} (hitems : items params = before ++ item :: after)
    (h : List.Forall₂ Spells before edits) (hbad : ∀ x, ¬ Spells item x) :
    ∃ name problem, c.apply params = (edits.foldl edit c, .error (.parameter name problem)) := by
  obtain ⟨name, problem, he⟩ := applyItems_bad hbad (edits.foldl edit c) after
  exact ⟨name, problem, apply_of_error (by rw [hitems, applyItems_spelled h, he])⟩

theorem applied (c : Settings) (params : String) : Applied c (items params) (c.apply params) := by
  have heffect : ∀ {edits : List Edit}, List.Forall₂ Spells (items params) edits →
      LastWins c edits (c.apply params).1 ∧ ((c.apply params).2 = .ok () ∨
        ∃ p, (c.apply params).1.number p = 0 ∧ (c.apply params).2 = .error (.zero p)) := by
    intro edits h
    rw [apply_spelled h]
    refine ⟨lastWins_foldl c edits, ?_⟩
    cases hv : (edits.foldl edit c).validate with
    | ok u => exact Or.inl rfl
    | error e =>
        obtain ⟨p, hp, rfl⟩ := validate_error hv
        exact Or.inr ⟨p, hp, rfl⟩
  refine ⟨⟨fun hok => ?_, ?_⟩, heffect, @fun _ _ _ edits hitems h hbad => ?_⟩
  · rcases spelled_or_bad (items params) with ⟨edits, h⟩ |
      ⟨before, bad, after, edits, hitems, h, hbad⟩
    · rw [apply_spelled h] at hok
      exact ⟨edits, _, h, lastWins_foldl c edits, validate_eq_ok_iff_number.1 hok⟩
    · obtain ⟨name, problem, he⟩ := apply_bad (c := c) hitems h hbad
      rw [he] at hok
      cases hok
  · rintro ⟨edits, s, h, hs, hpos⟩
    -- two settings that the same edits come to agree in their numbers
    obtain ⟨hr, hok | ⟨p, hzero, -⟩⟩ := heffect h
    · exact hok
    · exact absurd (by rw [hs.number, ← hr.number, hzero]) (hpos p)
  · obtain ⟨name, problem, he⟩ := apply_bad (c := c) hitems h hbad
    rw [he]
    exact ⟨lastWins_foldl c edits, name, problem, rfl⟩

/-- The items of a parameter text are what stands between its commas, without blanks around and
without empty ones; the text is accepted just if they are all in the grammar and leave no zero where
there must be none, the last assignments count, and a bad item leaves the effects of those
before. -/
theorem apply_lastWins (c : Settings) (params : String) :
    ∃ pieces trimmed, Text.Cuts ',' params.toList pieces ∧
      List.Forall₂ Text.Trims pieces trimmed ∧
        Applied c (trimmed.filter fun item => item ≠ []) (c.apply params) := by
  refine ⟨Text.pieces ',' params.toList, (Text.pieces ',' params.toList).map Text.trimChars,
    Text.cuts_pieces _ _, ?_, applied c params⟩
  rw [List.forall₂_map_right_iff]
  exact List.forall₂_same.2 fun cs _ => Text.trimChars_eq_iff.1 rfl

example : apply {} "trace_limit=0, off,,default ,threshold = +7, trace_limit=\t4,threshold" =
    ({ threshold := 7, traceLimit := 4 }, .error (.parameter "threshold" .noValue)) := by
  decide

end Settings

end HotLoop
