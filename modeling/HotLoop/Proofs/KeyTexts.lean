import HotLoop.Green
import Mathlib.Data.List.TakeWhile

/-!
# Keys by their texts

A key without floats can be told by the text that it is shown as. Its values stand apart by a comma
and a blank; a text among them ends at the first quote that no escape has made, and the other values
show neither comma, parenthesis nor quote. Which of the characters are escaped does not matter.
-/

namespace HotLoop

namespace Text

/-! ## Where a text ends -/

section

variable {α : Type} {p : α → Bool} {a b s t : List α}

theorem takeWhile_append_of_stop (ha : ∀ x ∈ a, p x = true) (hs : ∀ x ∈ s.head?, p x = false) :
    (a ++ s).takeWhile p = a := by
  rw [List.takeWhile_append_of_pos ha]
  cases s with
  | nil => exact List.append_nil a
  | cons x s =>
      rw [List.takeWhile_cons_of_neg (by simp [hs x rfl])]
      exact List.append_nil a

theorem dropWhile_append_of_stop (ha : ∀ x ∈ a, p x = true) (hs : ∀ x ∈ s.head?, p x = false) :
    (a ++ s).dropWhile p = s := by
  rw [List.dropWhile_append_of_pos ha]
  cases s with
  | nil => rfl
  | cons x s => exact List.dropWhile_cons_of_neg (by simp [hs x rfl])

/-- Two texts of one class, each before something of another class. -/
theorem append_inj_of_stop (ha : ∀ x ∈ a, p x = true) (hb : ∀ x ∈ b, p x = true)
    (hs : ∀ x ∈ s.head?, p x = false) (ht : ∀ x ∈ t.head?, p x = false) (h : a ++ s = b ++ t) :
    a = b ∧ s = t := by
  constructor
  · rw [← takeWhile_append_of_stop ha hs, h, takeWhile_append_of_stop hb ht]
  · rw [← dropWhile_append_of_stop ha hs, h, dropWhile_append_of_stop hb ht]

end

/-! ## Hexadecimal digits -/

theorem extend?_append (base n : Nat) (cs ds : List Char) :
    extend? base n (cs ++ ds) = (extend? base n cs).bind fun m => extend? base m ds := by
  induction cs generalizing n with
  | nil => rfl
  | cons c cs ih =>
      simp only [List.cons_append, extend?]
      cases digit? base c with
      | none => rfl
      | some d => exact ih _

theorem isSome_digit?_of_extend? {base m n : Nat} {cs : List Char}
    (h : extend? base m cs = some n) :
    ∀ c ∈ cs, (digit? base c).isSome = true := by
  induction cs generalizing m with
  | nil => exact List.forall_mem_nil _
  | cons c cs ih =>
      rw [extend?] at h
      cases hd : digit? base c with
      | none =>
          rw [hd] at h
          cases h
      | some d =>
          rw [hd] at h
          intro x hx
          rcases List.mem_cons.1 hx with rfl | hx
          · rw [hd]
            rfl
          · exact ih h x hx

theorem digit?_digitChar : ∀ base < 17, ∀ n < base, digit? base n.digitChar = some n := by decide

theorem extend?_toDigits (base : Nat) (hone : 1 < base) (hbase : base < 17) (n : Nat) :
    extend? base 0 (Nat.toDigits base n) = some n := by
  induction n using Nat.strongRecOn with
  | ind n ih =>
      rw [Nat.toDigits_eq_if hone]
      split_ifs with hn
      · rw [extend?, digit?_digitChar base hbase n hn]
        simp only [extend?, Nat.mul_zero, Nat.zero_add]
      · have hmod : n % base < base := Nat.mod_lt n (by omega)
        have hdiv := ih (n / base) (Nat.div_lt_self (by omega) hone)
        rw [extend?_append, hdiv, Option.bind_some, extend?, digit?_digitChar base hbase _ hmod]
        exact congrArg some (Nat.div_add_mod n base)

theorem extend?_hexDigits (n : Nat) : extend? 16 0 (hexDigits n) = some n :=
  extend?_toDigits 16 (by omega) (by omega) n

theorem hexDigits_inj {m n : Nat} (h : hexDigits m = hexDigits n) : m = n := by
  have hm := extend?_hexDigits m
  rw [h, extend?_hexDigits] at hm
  exact (Option.some.inj hm).symm

/-! ## Quoted texts -/

theorem shortEscape?_inj {c d e : Char} (hc : shortEscape? c = some e)
    (hd : shortEscape? d = some e) : c = d := by
  unfold shortEscape? at hc hd
  split at hc <;> cases hc <;> split at hd <;> first | rfl | cases hd

theorem shortEscape?_ne_u (c : Char) : shortEscape? c ≠ some 'u' := by
  unfold shortEscape?
  split <;> decide

/-- A character is shown by a letter, by its number or by itself, and then it needs no escape. -/
theorem escape_cases (c : Char) :
    (∃ e, shortEscape? c = some e ∧ escape c = ['\\', e]) ∨
      escape c = '\\' :: 'u' :: '\x7b' :: (hexDigits c.toNat ++ ['\x7d']) ∨
      (escape c = [c] ∧ c ≠ '\\' ∧ c ≠ '"') := by
  unfold escape
  cases he : shortEscape? c with
  | some e => exact Or.inl ⟨e, rfl, rfl⟩
  | none =>
      apply Or.inr
      by_cases hu : isUnprintable c = true
      · left
        simp [hu]
      · right
        refine ⟨by simp [hu], ?_, ?_⟩ <;> rintro rfl <;> cases he

theorem head?_escape_ne_quote (c : Char) (s : List Char) : (escape c ++ s).head? ≠ some '"' := by
  have hslash : '\\' ≠ '"' := by decide
  rcases escape_cases c with ⟨e, -, h⟩ | h | ⟨h, -, hc⟩ <;> rw [h] <;> intro hq
  · exact hslash (Option.some.inj hq)
  · exact hslash (Option.some.inj hq)
  · exact hc (Option.some.inj hq)

theorem hexDigits_append_inj {m n : Nat} {s t : List Char}
    (h : hexDigits m ++ '\x7d' :: s = hexDigits n ++ '\x7d' :: t) : m = n ∧ s = t := by
  have hstop : ∀ u : List Char, ∀ x ∈ ('\x7d' :: u).head?, (digit? 16 x).isSome = false := by
    intro u x hx
    rw [← Option.some.inj hx]
    decide
  obtain ⟨hd, ht⟩ := append_inj_of_stop (isSome_digit?_of_extend? (extend?_hexDigits m))
    (isSome_digit?_of_extend? (extend?_hexDigits n)) (hstop s) (hstop t) h
  exact ⟨hexDigits_inj hd, (List.cons.inj ht).2⟩

/-- No escape is the beginning of another. -/
theorem escape_append_inj {c d : Char} {s t : List Char} (h : escape c ++ s = escape d ++ t) :
    c = d ∧ s = t := by
  have hu : ∀ {x e : Char}, shortEscape? x = some e → e ≠ 'u' := by
    rintro x e hx rfl
    exact shortEscape?_ne_u x hx
  rcases escape_cases c with ⟨e, hc, hce⟩ | hce | ⟨hce, hc, -⟩ <;>
    rcases escape_cases d with ⟨f, hd, hde⟩ | hde | ⟨hde, hd, -⟩ <;>
    simp only [hce, hde, List.cons_append, List.nil_append, List.append_assoc, List.cons.injEq,
      true_and] at h
  · obtain ⟨rfl, hs⟩ := h
    exact ⟨shortEscape?_inj hc hd, hs⟩
  · exact absurd h.1 (hu hc)
  · exact absurd h.1.symm hd
  · exact absurd h.1.symm (hu hd)
  · obtain ⟨hn, hs⟩ := hexDigits_append_inj h
    exact ⟨Char.toNat_inj.1 hn, hs⟩
  · exact absurd h.1.symm hd
  · exact absurd h.1 hc
  · exact absurd h.1 hc
  · exact h

theorem flatMap_escape_append_inj {a b s t : List Char}
    (h : a.flatMap escape ++ '"' :: s = b.flatMap escape ++ '"' :: t) : a = b ∧ s = t := by
  induction a generalizing b with
  | nil =>
      cases b with
      | nil => exact ⟨rfl, (List.cons.inj h).2⟩
      | cons d b =>
          rw [List.flatMap_cons, List.append_assoc] at h
          exact absurd (h ▸ rfl) (head?_escape_ne_quote d (b.flatMap escape ++ '"' :: t))
  | cons c a ih =>
      rw [List.flatMap_cons, List.append_assoc] at h
      cases b with
      | nil => exact absurd (h ▸ rfl) (head?_escape_ne_quote c (a.flatMap escape ++ '"' :: s))
      | cons d b =>
          rw [List.flatMap_cons, List.append_assoc] at h
          obtain ⟨rfl, hrest⟩ := escape_append_inj h
          obtain ⟨rfl, hs⟩ := ih hrest
          exact ⟨rfl, hs⟩

/-- A quoted text ends by itself. -/
theorem quoteChars_append_inj {a b s t : List Char} (h : quoteChars a ++ s = quoteChars b ++ t) :
    a = b ∧ s = t := by
  apply flatMap_escape_append_inj
  simpa [quoteChars] using h

/-! ## Integers -/

theorem toList_toString_int (i : Int) :
    (toString i).toList = (if i < 0 then ['-'] else []) ++ Nat.toDigits 10 i.natAbs := by
  change (Int.repr i).toList = _
  cases i with
  | ofNat n => simp [Int.repr]
  | negSucc n => simp [Int.repr, Int.negSucc_lt_zero]

theorem ne_of_isDigit {c d : Char} (hc : c.isDigit = true) (hd : d.isDigit = false) : c ≠ d := by
  rintro rfl
  rw [hc] at hd
  cases hd

theorem isDigit_of_mem_digits {n : Nat} {c : Char} (hc : c ∈ Nat.toDigits 10 n) :
    c.isDigit = true :=
  Nat.isDigit_of_mem_toDigits (by decide) (by decide) hc

theorem forall_mem_toString_int {p : Char → Prop} (hsign : p '-')
    (hdigit : ∀ c : Char, c.isDigit = true → p c) (i : Int) : ∀ c ∈ (toString i).toList, p c := by
  intro c hc
  rw [toList_toString_int] at hc
  rcases List.mem_append.1 hc with hc | hc
  · split_ifs at hc
    · rw [List.mem_singleton.1 hc]
      exact hsign
    · exact absurd hc List.not_mem_nil
  · exact hdigit c (isDigit_of_mem_digits hc)

theorem digits_inj {m n : Nat} (h : Nat.toDigits 10 m = Nat.toDigits 10 n) : m = n := by
  have hm := Nat.ofDigitChars_ten_toDigits (n := m)
  rw [h, Nat.ofDigitChars_ten_toDigits] at hm
  exact hm.symm

theorem toList_toString_int_inj {i j : Int} (h : (toString i).toList = (toString j).toList) :
    i = j := by
  have hdash : ∀ m n : Nat, Nat.toDigits 10 m ≠ '-' :: Nat.toDigits 10 n := by
    intro m n he
    have hd : '-' ∈ Nat.toDigits 10 m := by
      rw [he]
      exact List.mem_cons_self
    exact ne_of_isDigit (isDigit_of_mem_digits hd) (by decide) rfl
  rw [toList_toString_int, toList_toString_int] at h
  by_cases hi : i < 0 <;> by_cases hj : j < 0 <;> simp only [hi, hj, if_true, if_false,
    List.cons_append, List.nil_append] at h
  · have hn := digits_inj (List.cons.inj h).2
    omega
  · exact absurd h.symm (hdash _ _)
  · exact absurd h (hdash _ _)
  · have hn := digits_inj h
    omega

/-! ## Lists -/

def isPart (c : Char) : Bool := c ≠ ',' && c ≠ ')'

def Behind (s : List Char) : Prop := ∀ c ∈ s.head?, isPart c = false

section

variable {α : Type} {f : α → List Char} {P : α → Prop} {as bs : List α}

def charsBehind (f : α → List Char) : List α → List Char
  | [] => [')']
  | a :: as => ',' :: ' ' :: (f a ++ charsBehind f as)

theorem behind_charsBehind (f : α → List Char) (as : List α) : Behind (charsBehind f as) := by
  cases as with
  | nil => exact fun c hc => Option.some.inj hc ▸ rfl
  | cons a as => exact fun c hc => Option.some.inj hc ▸ rfl

/-- Lists are told by their texts if their values are, whatever stands behind these. -/
theorem charsBehind_inj (hf : ∀ {a b s t}, P a → P b → Behind s → Behind t →
    f a ++ s = f b ++ t → a = b ∧ s = t) (has : ∀ a ∈ as, P a) (hbs : ∀ b ∈ bs, P b)
    (h : charsBehind f as = charsBehind f bs) : as = bs := by
  induction as generalizing bs with
  | nil =>
      cases bs with
      | nil => rfl
      | cons b bs => exact absurd (List.cons.inj h).1 (by decide)
  | cons a as ih =>
      cases bs with
      | nil => exact absurd (List.cons.inj h).1 (by decide)
      | cons b bs =>
          obtain ⟨ha, has⟩ := List.forall_mem_cons.1 has
          obtain ⟨hb, hbs⟩ := List.forall_mem_cons.1 hbs
          have hrest : f a ++ charsBehind f as = f b ++ charsBehind f bs :=
            (List.cons.inj (List.cons.inj h).2).2
          obtain ⟨hab, hbehind⟩ :=
            hf ha hb (behind_charsBehind f as) (behind_charsBehind f bs) hrest
          rw [hab, ih has hbs hbehind]

def charsWithin (f : α → List Char) : List α → List Char
  | [] => [')']
  | a :: as => f a ++ charsBehind f as

theorem intercalate_chars (f : α → List Char) (as : List α) :
    [',', ' '].intercalate (as.map f) ++ [')'] = charsWithin f as := by
  induction as with
  | nil => rfl
  | cons a as ih =>
      cases as with
      | nil => simp [charsWithin, charsBehind]
      | cons b bs =>
          rw [List.map_cons, List.map_cons, List.intercalate_cons_cons, List.append_assoc,
            List.append_assoc, ← List.map_cons, ih]
          rfl

theorem charsWithin_inj (hf : ∀ {a b s t}, P a → P b → Behind s → Behind t →
    f a ++ s = f b ++ t → a = b ∧ s = t)
    (hstart : ∀ a, P a → ∃ c cs, f a = c :: cs ∧ isPart c = true) (has : ∀ a ∈ as, P a)
    (hbs : ∀ b ∈ bs, P b) (h : charsWithin f as = charsWithin f bs) : as = bs := by
  have hempty : ∀ {a : α} {as : List α}, P a → charsWithin f [] ≠ charsWithin f (a :: as) := by
    intro a as ha he
    obtain ⟨c, cs, hc, hpart⟩ := hstart a ha
    rw [charsWithin, charsWithin, hc] at he
    rw [← (List.cons.inj he).1] at hpart
    exact absurd hpart (by decide)
  cases as with
  | nil =>
      cases bs with
      | nil => rfl
      | cons b bs => exact absurd h (hempty (hbs b List.mem_cons_self))
  | cons a as =>
      cases bs with
      | nil => exact absurd h.symm (hempty (has a List.mem_cons_self))
      | cons b bs =>
          -- with a comma and a blank before it, the first value is like the others
          exact charsBehind_inj hf has hbs (congrArg (fun cs => ',' :: ' ' :: cs) h)

end

end Text

/-! ## Values -/

namespace Green

open Text

def Kind.ofInitial (c : Char) : Kind :=
  if c = '"' then .str
  else if c = '#' then .ref
  else if c = 't' ∨ c = 'f' then .bool
  else .int

def chars (v : Green) : List Char := (toString v).toList

theorem chars_int (i : Int) : (Green.int i).chars = (toString i).toList := rfl

theorem chars_str (s : String) : (Green.str s).chars = quoteChars s.toList :=
  String.toList_ofList

theorem chars_ref (o : ObjectId) : (Green.ref o).chars = '#' :: Nat.toDigits 10 o.number := by
  change ("#" ++ Nat.repr o.number).toList = _
  rw [String.toList_append, Nat.toList_repr]
  rfl

theorem ofInitial_of_isDigit {c : Char} (hc : c.isDigit = true) : Kind.ofInitial c = .int := by
  have hquote : c ≠ '"' := ne_of_isDigit hc (by decide)
  have href : c ≠ '#' := ne_of_isDigit hc (by decide)
  have htrue : c ≠ 't' := ne_of_isDigit hc (by decide)
  have hfalse : c ≠ 'f' := ne_of_isDigit hc (by decide)
  unfold Kind.ofInitial
  rw [if_neg hquote, if_neg href, if_neg (not_or.2 ⟨htrue, hfalse⟩)]

/-- The first character tells the kind. -/
theorem head?_chars {v : Green} (hv : v.kind ≠ .float) :
    v.chars.head?.map Kind.ofInitial = some v.kind := by
  cases v with
  | int i =>
      rw [chars_int, toList_toString_int]
      by_cases hi : i < 0
      · rw [if_pos hi]
        rfl
      · rw [if_neg hi, List.nil_append]
        cases hd : Nat.toDigits 10 i.natAbs with
        | nil => exact absurd hd Nat.toDigits_ne_nil
        | cons c cs =>
            have hc : c.isDigit = true := isDigit_of_mem_digits (hd ▸ List.mem_cons_self)
            exact congrArg some (ofInitial_of_isDigit hc)
  | float bits => exact absurd rfl hv
  | bool b => cases b <;> rfl
  | str s =>
      rw [chars_str]
      rfl
  | ref o =>
      rw [chars_ref]
      rfl

theorem isPart_chars {v : Green} (hv : v.kind ≠ .float) (hs : v.kind ≠ .str) :
    ∀ c ∈ v.chars, isPart c = true := by
  have hdigit : ∀ c : Char, c.isDigit = true → isPart c = true := by
    intro c hc
    have hcomma : c ≠ ',' := ne_of_isDigit hc (by decide)
    have hclose : c ≠ ')' := ne_of_isDigit hc (by decide)
    simp [isPart, hcomma, hclose]
  cases v with
  | int i => exact forall_mem_toString_int (p := fun c => isPart c = true) rfl hdigit i
  | float bits => exact absurd rfl hv
  | bool b =>
      cases b with
      | true => exact List.all_eq_true.1 rfl
      | false => exact List.all_eq_true.1 rfl
  | str s => exact absurd rfl hs
  | ref o =>
      rw [chars_ref]
      exact List.forall_mem_cons.2 ⟨rfl, fun c hc => hdigit c (isDigit_of_mem_digits hc)⟩

theorem exists_str_of_kind {v : Green} (hv : v.kind = .str) : ∃ s, v = .str s := by
  cases v with
  | str s => exact ⟨s, rfl⟩
  | _ => cases hv

theorem exists_chars_cons {v : Green} (hv : v.kind ≠ .float) :
    ∃ c cs, v.chars = c :: cs ∧ Kind.ofInitial c = v.kind ∧ isPart c = true := by
  have hhead := head?_chars hv
  cases hc : v.chars with
  | nil =>
      rw [hc] at hhead
      cases hhead
  | cons c cs =>
      rw [hc] at hhead
      refine ⟨c, cs, rfl, Option.some.inj hhead, ?_⟩
      by_cases hs : v.kind = .str
      · obtain ⟨s, rfl⟩ := exists_str_of_kind hs
        rw [chars_str] at hc
        rw [← (List.cons.inj hc).1]
        rfl
      · apply isPart_chars hv hs
        rw [hc]
        exact List.mem_cons_self

theorem chars_inj {v w : Green} (hv : v.kind ≠ .float) (hkind : v.kind = w.kind)
    (h : v.chars = w.chars) : v = w := by
  cases v <;> cases w <;> try cases hkind
  case int i j => rw [toList_toString_int_inj h]
  case float a b => exact absurd rfl hv
  case bool a b =>
    revert h
    cases a <;> cases b <;> decide
  case str s t =>
    rw [chars_str, chars_str] at h
    obtain ⟨hst, -⟩ := quoteChars_append_inj (congrArg (· ++ []) h)
    rw [String.toList_inj.1 hst]
  case ref a b =>
    rw [chars_ref, chars_ref] at h
    have hn : a = b := congrArg ObjectId.mk (digits_inj (List.cons.inj h).2)
    rw [hn]

/-- Values are told by their texts, whatever stands behind them. -/
theorem chars_append_inj {v w : Green} {s t : List Char} (hv : v.kind ≠ .float)
    (hw : w.kind ≠ .float) (hs : Behind s) (ht : Behind t) (h : v.chars ++ s = w.chars ++ t) :
    v = w ∧ s = t := by
  have hkind : v.kind = w.kind := by
    obtain ⟨c, cs, hc, hcv, -⟩ := exists_chars_cons hv
    obtain ⟨d, ds, hd, hdw, -⟩ := exists_chars_cons hw
    rw [hc, hd] at h
    rw [← hcv, ← hdw, (List.cons.inj h).1]
  by_cases hstr : v.kind = .str
  · obtain ⟨a, rfl⟩ := exists_str_of_kind hstr
    obtain ⟨b, rfl⟩ := exists_str_of_kind (hkind.symm.trans hstr)
    rw [chars_str, chars_str] at h
    obtain ⟨hab, hst⟩ := quoteChars_append_inj h
    exact ⟨congrArg Green.str (String.toList_inj.1 hab), hst⟩
  · obtain ⟨hvw, hst⟩ := append_inj_of_stop (isPart_chars hv hstr)
      (isPart_chars hw (hkind ▸ hstr)) hs ht h
    exact ⟨chars_inj hv hkind hvw, hst⟩

end Green

/-! ## Keys -/

namespace Key

open Green Text

def Exact (k : Key) : Prop := ∀ v ∈ k.values, v.kind ≠ .float

instance (k : Key) : Decidable k.Exact := inferInstanceAs (Decidable (∀ v ∈ k.values, _))

theorem toList_toString (k : Key) :
    (toString k).toList = '(' :: charsWithin Green.chars k.values := by
  have hmap : (k.values.map toString).map String.toList = k.values.map Green.chars := List.map_map
  change ("(" ++ ", ".intercalate (k.values.map toString) ++ ")").toList = _
  rw [String.toList_append, String.toList_append, String.toList_intercalate, hmap,
    ← intercalate_chars]
  rfl

/-- Keys without floats show the same text only if they are the same. -/
theorem toString_inj_iff {k₁ k₂ : Key} (h₁ : k₁.Exact) (h₂ : k₂.Exact) :
    toString k₁ = toString k₂ ↔ k₁ = k₂ := by
  constructor
  · intro h
    have hl : (toString k₁).toList = (toString k₂).toList := congrArg String.toList h
    rw [toList_toString, toList_toString] at hl
    have hstart : ∀ v : Green, v.kind ≠ .float → ∃ c cs, v.chars = c :: cs ∧ isPart c = true := by
      intro v hv
      obtain ⟨c, cs, hc, -, hpart⟩ := exists_chars_cons hv
      exact ⟨c, cs, hc, hpart⟩
    exact congrArg Key.mk (charsWithin_inj chars_append_inj hstart h₁ h₂ (List.cons.inj hl).2)
  · exact congrArg toString

/-- A combining character is shown by its number, and so is the backslash of a text that spells the
same escape. -/
theorem toString_inj_iff_combining :
    let k₁ : Key := ⟨[.str "\u0301", .int (-3), .ref ⟨9⟩, .bool true]⟩
    let k₂ : Key := ⟨[.str "\\u\x7b301\x7d", .int (-3), .ref ⟨9⟩, .bool true]⟩
    k₁.Exact ∧ k₂.Exact ∧ toString k₁ ≠ toString k₂ :=
  ⟨by decide, by decide, (toString_inj_iff (by decide) (by decide)).not.2 (by decide)⟩

end Key

end HotLoop
