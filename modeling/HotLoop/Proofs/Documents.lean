import HotLoop.Proofs.Literals

/-!
# Reading JSON

A reader of JSON texts of any form: with blanks, with every escape, with numbers of every kind.
What it reads is a `Document`. Main statement: `ofText?_render`, a value that was written is read
back, to the end of its text. A float is kept by its digits.
-/

namespace HotLoop.Json

/-- What a text holds. A number that is no integer is kept by its digits, point and exponent. -/
inductive Document where
  | null
  | bool (b : Bool)
  | int (i : Int)
  | decimal (literal : List Char)
  | str (s : String)
  | arr (items : List Document)
  | obj (members : List (String × Document))

namespace Document

def isNumeral (c : Char) : Bool :=
  isDigit c || c == '-' || c == '+' || c == '.' || c == 'e' || c == 'E'

def unsign : List Char → Bool × List Char
  | '-' :: cs => (true, cs)
  | cs => (false, cs)

def ofLiteral (cs : List Char) : Except Problem Document :=
  let (negative, ds) := unsign cs
  match skipNumber ds with
  | .error p => .error p
  | .ok (_ :: _) => .error .malformed
  | .ok [] =>
    match Text.unsigned? 10 ds with
    | some n => .ok (.int (if negative then -n else n))
    | none => .ok (.decimal cs)

def number (cs : List Char) : Except Problem (Document × List Char) :=
  (ofLiteral (cs.takeWhile isNumeral)).map fun d => (d, cs.dropWhile isNumeral)

mutual

/-- Reads a value. Two steps for each character suffice. -/
def read : Nat → List Char → Except Problem (Document × List Char)
  | 0, _ => .error .truncated
  | n + 1, cs =>
    match skipSpace cs with
    | [] => .error .truncated
    | c :: rest =>
      if c = '-' ∨ isDigit c then number (c :: rest)
      else match c with
        | 'n' => (word ['u', 'l', 'l'] rest).map fun rest => (.null, rest)
        | 't' => (word ['r', 'u', 'e'] rest).map fun rest => (.bool true, rest)
        | 'f' => (word ['a', 'l', 's', 'e'] rest).map fun rest => (.bool false, rest)
        | '"' => (string rest).map fun p => (.str p.1, p.2)
        | '[' =>
          match skipSpace rest with
          | ']' :: rest => .ok (.arr [], rest)
          | rest => (readItems n rest).map fun p => (.arr p.1, p.2)
        | '\x7b' =>
          match skipSpace rest with
          | '\x7d' :: rest => .ok (.obj [], rest)
          | rest => (readMembers n rest).map fun p => (.obj p.1, p.2)
        | _ => .error .malformed

def readItems : Nat → List Char → Except Problem (List Document × List Char)
  | 0, _ => .error .truncated
  | n + 1, cs => do
    let (d, rest) ← read n cs
    match skipSpace rest with
    | [] => .error .truncated
    | ',' :: rest => (readItems n rest).map fun p => (d :: p.1, p.2)
    | ']' :: rest => .ok ([d], rest)
    | _ => .error .malformed

def readMembers : Nat → List Char → Except Problem (List (String × Document) × List Char)
  | 0, _ => .error .truncated
  | n + 1, cs => do
    let (name, rest) ← expectName cs
    let rest ← expectColon rest
    let (d, rest) ← read n rest
    match skipSpace rest with
    | [] => .error .truncated
    | ',' :: rest => (readMembers n rest).map fun p => ((name, d) :: p.1, p.2)
    | '\x7d' :: rest => .ok ([(name, d)], rest)
    | _ => .error .malformed

end

def ofText? (s : String) : Except Problem Document :=
  readAll (fun cs => read (2 * cs.length + 2) cs) s

end Document

/-! ## Strings -/

theorem shortEscape?_unescape? {c e : Char} (h : shortEscape? c = some e) :
    e ≠ 'u' ∧ unescape? e = some c := by
  unfold shortEscape? at h
  split at h <;> cases h <;> exact ⟨by decide, rfl⟩

theorem escape_cases (c : Char) :
    (∃ e, e ≠ 'u' ∧ unescape? e = some c ∧ escape c = ['\\', e]) ∨
      (∃ ds, ds.length = 4 ∧ Text.unsigned? 16 ds = some c.toNat ∧ c.toNat < 0x20 ∧
        escape c = '\\' :: 'u' :: ds) ∨
      (escape c = [c] ∧ c ≠ '"' ∧ c ≠ '\\' ∧ 0x20 ≤ c.toNat) := by
  have hhex := Text.extend?_hexDigits c.toNat
  unfold escape
  cases he : shortEscape? c with
  | some e =>
      obtain ⟨hu, hun⟩ := shortEscape?_unescape? he
      exact Or.inl ⟨e, hu, hun, rfl⟩
  | none =>
      apply Or.inr
      dsimp only
      split_ifs with hlt hlt'
      · left
        have hone : (Text.hexDigits c.toNat).length = 1 := by
          rw [Text.hexDigits, Nat.toDigits_of_lt_base hlt]
          rfl
        exact ⟨['0', '0', '0'] ++ Text.hexDigits c.toNat, by simp [hone], hhex, by omega, rfl⟩
      · left
        have htwo : (Text.hexDigits c.toNat).length = 2 := by
          rw [Text.hexDigits, Nat.toDigits_of_base_le (by omega) (by omega),
            Nat.toDigits_of_lt_base (by omega)]
          rfl
        exact ⟨['0', '0'] ++ Text.hexDigits c.toNat, by simp [htwo], hhex, hlt', rfl⟩
      · right
        refine ⟨rfl, ?_, ?_, by omega⟩ <;> rintro rfl <;> cases he

theorem length_le_utf8Size (ds : List Char) (n : Nat) :
    n + ds.length ≤ ds.foldl (fun n c => n + c.utf8Size) n := by
  induction ds generalizing n with
  | nil => exact Nat.le_refl n
  | cons d ds ih =>
      have hd := d.utf8Size_pos
      have hrest := ih (n + d.utf8Size)
      rw [List.foldl_cons, List.length_cons]
      omega

theorem hexUnit_append {ds rest : List Char} {n : Nat} (hds : ds.length = 4)
    (hn : Text.unsigned? 16 ds = some n) : hexUnit (ds ++ rest) = .ok (n, rest) := by
  have htake : (ds ++ rest).take 4 = ds := by rw [← hds, List.take_left]
  have hdrop : (ds ++ rest).drop 4 = rest := by rw [← hds, List.drop_left]
  have hsize := length_le_utf8Size ds 0
  unfold hexUnit
  rw [htake, hdrop, hn, if_neg (by omega)]

theorem stringBody_escape (c : Char) {n : Nat} {s rest rest' : List Char}
    (h : stringBody n rest = .ok (s, rest')) :
    stringBody (n + 1) (escape c ++ rest) = .ok (c :: s, rest') := by
  rcases escape_cases c with ⟨e, hu, hun, he⟩ | ⟨ds, hlen, hds, hlt, he⟩ | ⟨he, hquote, hslash, hle⟩
  · have hesc : escaped (e :: rest) = .ok (c, rest) := by
      unfold escaped
      split
      · contradiction
      · rename_i heq
        exact absurd (List.cons.inj heq).1 hu
      · rename_i heq
        obtain ⟨rfl, rfl⟩ := List.cons.inj heq
        rw [hun]
    rw [he]
    simp [stringBody, hesc, h, bind, Except.bind]
  · have hesc : escaped ('u' :: (ds ++ rest)) = .ok (c, rest) := by
      simp only [escaped, hexUnit_append hlen hds, bind, Except.bind]
      rw [if_neg (by omega), if_neg (by omega), Char.ofNat_toNat]
    rw [he]
    simp [stringBody, hesc, h, bind, Except.bind]
  · rw [he, List.singleton_append, stringBody, if_neg hquote, if_neg hslash, if_neg (by omega), h]
    rfl

theorem stringBody_flatMap (cs : List Char) {n : Nat} (hn : cs.length < n) (rest : List Char) :
    stringBody n (cs.flatMap escape ++ '"' :: rest) = .ok (cs, rest) := by
  induction cs generalizing n with
  | nil =>
      cases n with
      | zero => omega
      | succ n => rfl
  | cons c cs ih =>
      rw [List.length_cons] at hn
      cases n with
      | zero => omega
      | succ n =>
          rw [List.flatMap_cons, List.append_assoc]
          exact stringBody_escape c (ih (by omega))

theorem escape_ne_nil (c : Char) : escape c ≠ [] := by
  rcases escape_cases c with ⟨e, -, -, he⟩ | ⟨ds, -, -, -, he⟩ | ⟨he, -⟩ <;> rw [he] <;> nofun

theorem length_le_flatMap_escape (cs : List Char) : cs.length ≤ (cs.flatMap escape).length := by
  induction cs with
  | nil => exact Nat.le_refl 0
  | cons c cs ih =>
      have hc := List.length_pos_iff.2 (escape_ne_nil c)
      rw [List.flatMap_cons, List.length_append, List.length_cons]
      omega

theorem string_flatMap (s : String) (rest : List Char) :
    string (s.toList.flatMap escape ++ '"' :: rest) = .ok (s, rest) := by
  have hlen := length_le_flatMap_escape s.toList
  have hbody := stringBody_flatMap s.toList
    (n := (s.toList.flatMap escape ++ '"' :: rest).length + 1)
    (by rw [List.length_append]; omega) rest
  unfold string
  rw [hbody]
  simp [bind, Except.bind]

/-! ## Numbers -/

namespace Document

theorem isNumeral_of_isDigit {c : Char} (hc : isDigit c = true) : isNumeral c = true := by
  simp [isNumeral, hc]

theorem unsign_of_digit {d : Char} (hd : isDigit d = true) (cs : List Char) :
    unsign (d :: cs) = (false, d :: cs) := by
  have hminus : d ≠ '-' := Text.ne_of_isDigit hd rfl
  unfold unsign
  split
  · rename_i heq
    exact absurd (List.cons.inj heq).1 hminus
  · rfl

theorem ofLiteral_int (i : Int) : ofLiteral (toString i).toList = .ok (.int i) := by
  have hskip := skipNumber_whole (whole_toDigits i.natAbs)
  have hread : Text.unsigned? 10 (Nat.toDigits 10 i.natAbs) = some i.natAbs := by
    obtain ⟨d, rest, hd, -⟩ := (digits_toDigits i.natAbs).exists_cons
    have hall := Text.extend?_toDigits 10 (by omega) (by omega) i.natAbs
    rw [hd] at hall ⊢
    exact hall
  rw [Text.toList_toString_int]
  by_cases hi : i < 0
  · simp only [if_pos hi, List.singleton_append, ofLiteral, unsign, hskip, hread]
    rw [if_pos trivial, show -(i.natAbs : Int) = i by omega]
  · obtain ⟨d, rest, hd, hdigit⟩ := (digits_toDigits i.natAbs).exists_cons
    have hsign : unsign (Nat.toDigits 10 i.natAbs) = (false, Nat.toDigits 10 i.natAbs) := by
      rw [hd, unsign_of_digit hdigit]
    simp only [if_neg hi, List.nil_append, ofLiteral, hsign, hskip, hread]
    rw [if_neg (by decide), show (i.natAbs : Int) = i by omega]

end Document

theorem Fractional.exists_cons {cs : List Char} (h : Fractional cs) :
    ∃ d rest, cs = d :: rest ∧ isDigit d = true := by
  have hw : ∀ {w : List Char}, Whole w → ∀ s, ∃ d rest, w ++ s = d :: rest ∧ isDigit d = true := by
    intro w hw s
    obtain ⟨d, rest, rfl, hd⟩ := hw.exists_cons
    exact ⟨d, rest ++ s, rfl, hd⟩
  cases h with
  | fraction h _ => exact hw h _
  | exponent h _ => exact hw h _
  | both h _ _ => exact hw h _

theorem Fractional.point_or_letter {cs : List Char} (h : Fractional cs) : '.' ∈ cs ∨ 'e' ∈ cs := by
  cases h <;> simp

theorem Exponent.isNumeral {x : List Char} (hx : Exponent x) :
    ∀ c ∈ x, Document.isNumeral c = true := by
  obtain ⟨ds, hx, hds⟩ := hx
  have hall : ∀ d ∈ ds, Document.isNumeral d = true :=
    fun d hd => Document.isNumeral_of_isDigit (hds.digits d hd)
  rcases hx with rfl | rfl | rfl
  · exact hall
  · exact List.forall_mem_cons.2 ⟨rfl, hall⟩
  · exact List.forall_mem_cons.2 ⟨rfl, hall⟩

theorem Fractional.isNumeral {cs : List Char} (h : Fractional cs) :
    ∀ c ∈ cs, Document.isNumeral c = true := by
  have hall : ∀ {ds : List Char}, Digits ds → ∀ d ∈ ds, Document.isNumeral d = true :=
    fun hds d hd => Document.isNumeral_of_isDigit (hds.digits d hd)
  have hcons : ∀ {a : Char} {cs : List Char}, Document.isNumeral a = true →
      (∀ c ∈ cs, Document.isNumeral c = true) → ∀ c ∈ a :: cs, Document.isNumeral c = true :=
    fun ha hcs => List.forall_mem_cons.2 ⟨ha, hcs⟩
  cases h with
  | fraction hw hf => exact List.forall_mem_append.2 ⟨hall hw.toDigits, hcons rfl (hall hf)⟩
  | exponent hw hx => exact List.forall_mem_append.2 ⟨hall hw.toDigits, hcons rfl hx.isNumeral⟩
  | both hw hf hx =>
      have hletter := List.forall_mem_append.2 ⟨hall hf, hcons (a := 'e') rfl hx.isNumeral⟩
      exact List.forall_mem_append.2 ⟨hall hw.toDigits, hcons rfl hletter⟩

namespace Document

theorem unsigned?_fractional {cs : List Char} (h : Fractional cs) :
    Text.unsigned? 10 cs = none := by
  obtain ⟨d, rest, rfl, -⟩ := h.exists_cons
  cases hn : Text.unsigned? 10 (d :: rest) with
  | none => rfl
  | some n =>
      have hall := Text.isSome_digit?_of_extend? hn
      rcases h.point_or_letter with hm | hm
      · exact absurd (hall _ hm) (by decide)
      · exact absurd (hall _ hm) (by decide)

theorem ofLiteral_fractional {cs ds : List Char} (h : Fractional cs)
    (hds : ds = cs ∨ ds = '-' :: cs) :
    ofLiteral ds = .ok (.decimal ds) := by
  have hskip := skipNumber_fractional h
  have hnone := unsigned?_fractional h
  rcases hds with rfl | rfl
  · obtain ⟨d, rest, hd, hdigit⟩ := h.exists_cons
    have hsign : unsign ds = (false, ds) := by rw [hd, unsign_of_digit hdigit]
    simp only [ofLiteral, hsign, hskip, hnone]
  · simp only [ofLiteral, unsign, hskip, hnone]

theorem start_ne {c d : Char} (hc : c = '-' ∨ isDigit c = true) (hd : d ≠ '-')
    (hdigit : isDigit d = false) : c ≠ d := by
  rcases hc with rfl | hc
  · exact hd.symm
  · exact Text.ne_of_isDigit hc hdigit

theorem isSpace_of_start {c : Char} (hc : c = '-' ∨ isDigit c = true) : isSpace c = false := by
  have hne : ∀ d : Char, d ≠ '-' → isDigit d = false → c ≠ d := fun d => start_ne hc
  simp [isSpace, hne ' ' (by decide) rfl, hne '\n' (by decide) rfl, hne '\t' (by decide) rfl,
    hne '\r' (by decide) rfl]

theorem skipSpace_cons {c : Char} (hc : isSpace c = false) (cs : List Char) :
    skipSpace (c :: cs) = c :: cs :=
  List.dropWhile_cons_of_neg (by simp [hc])

def Behind (rest : List Char) : Prop := ∀ c ∈ rest.head?, isNumeral c = false

structure Spells (cs : List Char) (d : Document) : Prop where
  head : ∃ c rest, cs = c :: rest ∧ (c = '-' ∨ isDigit c = true)
  isNumeral : ∀ c ∈ cs, isNumeral c = true
  ofLiteral : ofLiteral cs = .ok d

theorem spells_int (i : Int) : Spells (toString i).toList (.int i) where
  head := by
    rw [Text.toList_toString_int]
    by_cases hi : i < 0
    · rw [if_pos hi]
      exact ⟨'-', _, rfl, Or.inl rfl⟩
    · obtain ⟨d, rest, hd, hdigit⟩ := (digits_toDigits i.natAbs).exists_cons
      rw [if_neg hi, List.nil_append]
      exact ⟨d, rest, hd, Or.inr hdigit⟩
  isNumeral := Text.forall_mem_toString_int (p := fun c => isNumeral c = true) rfl
    (fun _ => isNumeral_of_isDigit) i
  ofLiteral := ofLiteral_int i

theorem spells_fractional {cs ds : List Char} (h : Fractional cs) (hds : ds = cs ∨ ds = '-' :: cs) :
    Spells ds (.decimal ds) := by
  refine ⟨?_, ?_, ofLiteral_fractional h hds⟩
  · obtain ⟨d, rest, hd, hdigit⟩ := h.exists_cons
    rcases hds with rfl | rfl
    · exact ⟨d, rest, hd, Or.inr hdigit⟩
    · exact ⟨'-', cs, rfl, Or.inl rfl⟩
  · rcases hds with rfl | rfl
    · exact h.isNumeral
    · exact List.forall_mem_cons.2 ⟨rfl, h.isNumeral⟩

theorem Spells.read {cs rest : List Char} {d : Document} (h : Spells cs d) (hrest : Behind rest)
    (n : Nat) : read (n + 1) (cs ++ rest) = .ok (d, rest) := by
  have htake := Text.takeWhile_append_of_stop h.isNumeral hrest
  have hdrop := Text.dropWhile_append_of_stop h.isNumeral hrest
  obtain ⟨c, t, rfl, hc⟩ := h.head
  have hskip := skipSpace_cons (isSpace_of_start hc) (t ++ rest)
  rw [List.cons_append] at htake hdrop ⊢
  simp only [Document.read, hskip, if_pos hc, number, htake, hdrop, h.ofLiteral, Except.map]

end Document

/-! ## Whole values -/

mutual

/-- What is read where the value was written. -/
def document : Json → Document
  | .null => .null
  | .bool b => .bool b
  | .int i => .int i
  | .float bits =>
    let text := floatLayout.render bits
    if text = "null" then .null else .decimal text.toList
  | .str s => .str s
  | .arr items => .arr (documentsOf items)
  | .obj members => .obj (membersOf members)

def documentsOf : List Json → List Document
  | [] => []
  | j :: js => j.document :: documentsOf js

def membersOf : List (String × Json) → List (String × Document)
  | [] => []
  | (k, j) :: ms => (k, j.document) :: membersOf ms

end

namespace Document

theorem float_cases (bits : UInt64) :
    ((Json.float bits).chars = ['n', 'u', 'l', 'l'] ∧ (Json.float bits).document = .null) ∨
      Spells (Json.float bits).chars (Json.float bits).document := by
  have hnull : floatLayout.render bits = "null" →
      (Json.float bits).chars = ['n', 'u', 'l', 'l'] ∧ (Json.float bits).document = .null := by
    intro h
    simp [chars, document, h]
  rcases floatLayout.render_cases bits with h | h | h | ⟨cs, hcs, h⟩
  · exact Or.inl (hnull h)
  · exact Or.inl (hnull h)
  · exact Or.inl (hnull h)
  · apply Or.inr
    have hspells := spells_fractional hcs h
    have hne : floatLayout.render bits ≠ "null" := by
      intro he
      obtain ⟨c, rest, hc, hstart⟩ := hspells.head
      rw [he] at hc
      exact start_ne hstart (by decide) rfl (List.cons.inj hc).1.symm
    have hdoc : (Json.float bits).document = .decimal (floatLayout.render bits).toList := by
      simp [document, hne]
    rw [hdoc]
    exact hspells

theorem read_bool (b : Bool) (n : Nat) (rest : List Char) :
    read (n + 1) ((Json.bool b).chars ++ rest) = .ok (.bool b, rest) := by
  cases b <;> rfl

theorem read_float (bits : UInt64) (n : Nat) {rest : List Char} (hrest : Behind rest) :
    read (n + 1) ((Json.float bits).chars ++ rest) = .ok ((Json.float bits).document, rest) := by
  rcases float_cases bits with ⟨hchars, hdoc⟩ | h
  · rw [hchars, hdoc]
    rfl
  · exact h.read hrest n

theorem read_quote (s : String) (n : Nat) (rest : List Char) :
    read (n + 1) (quote s ++ rest) = .ok (.str s, rest) := by
  have hread : ∀ cs, read (n + 1) ('"' :: cs) = (string cs).map fun p => (.str p.1, p.2) :=
    fun _ => rfl
  have hchars : quote s ++ rest = '"' :: (s.toList.flatMap escape ++ '"' :: rest) := by simp [quote]
  rw [hchars, hread, string_flatMap]
  rfl

end Document

/-- A value begins with a character that is neither blank nor closes an array. -/
theorem exists_chars_cons (j : Json) :
    ∃ c rest, j.chars = c :: rest ∧ isSpace c = false ∧ c ≠ ']' := by
  have hstart : ∀ {cs : List Char} {d : Document}, d.Spells cs →
      ∃ c rest, cs = c :: rest ∧ isSpace c = false ∧ c ≠ ']' := by
    intro cs d h
    obtain ⟨c, rest, hc, hs⟩ := h.head
    exact ⟨c, rest, hc, Document.isSpace_of_start hs, Document.start_ne hs (by decide) rfl⟩
  cases j with
  | null => exact ⟨'n', _, rfl, rfl, by decide⟩
  | bool b => cases b <;> exact ⟨_, _, rfl, rfl, by decide⟩
  | int i => exact hstart (Document.spells_int i)
  | float bits =>
      rcases Document.float_cases bits with ⟨h, -⟩ | h
      · exact ⟨'n', _, h, rfl, by decide⟩
      · exact hstart h
  | str s => exact ⟨'"', _, rfl, rfl, by decide⟩
  | arr items => exact ⟨'[', _, rfl, rfl, by decide⟩
  | obj members => exact ⟨'\x7b', _, rfl, rfl, by decide⟩

theorem exists_charsOfItems_cons (j : Json) (js : List Json) :
    ∃ c rest, charsOfItems (j :: js) = c :: rest ∧ isSpace c = false ∧ c ≠ ']' := by
  obtain ⟨c, rest, hc, hspace, hclose⟩ := exists_chars_cons j
  cases js with
  | nil => exact ⟨c, rest, hc, hspace, hclose⟩
  | cons j' js => exact ⟨c, _, by rw [charsOfItems, hc]; rfl; nofun, hspace, hclose⟩

theorem exists_charsOfMembers_append (k : String) (j : Json) (ms : List (String × Json)) :
    ∃ rest, charsOfMembers ((k, j) :: ms) = quote k ++ rest := by
  cases ms with
  | nil => exact ⟨_, rfl⟩
  | cons m ms => exact ⟨':' :: j.chars ++ ',' :: charsOfMembers (m :: ms), by simp [charsOfMembers]⟩

namespace Document

/-! ## Reading back -/

theorem expectName_quote (k : String) (rest : List Char) :
    expectName (quote k ++ rest) = .ok (k, rest) := by
  have hname : ∀ cs, expectName ('"' :: cs) = string cs := fun _ => rfl
  have hchars : quote k ++ rest = '"' :: (k.toList.flatMap escape ++ '"' :: rest) := by simp [quote]
  rw [hchars, hname, string_flatMap]

theorem read_bracket {c : Char} (hc : isSpace c = false) (hclose : c ≠ ']') (n : Nat)
    (cs : List Char) :
    read (n + 1) ('[' :: c :: cs) = (readItems n (c :: cs)).map fun p => (.arr p.1, p.2) := by
  have hread : read (n + 1) ('[' :: c :: cs) =
      match skipSpace (c :: cs) with
      | ']' :: rest => .ok (.arr [], rest)
      | rest => (readItems n rest).map fun p => (.arr p.1, p.2) := rfl
  rw [hread, skipSpace_cons hc]
  split
  · rename_i heq
    exact absurd (List.cons.inj heq).1 hclose
  · rfl

theorem read_brace (n : Nat) (k : String) (cs : List Char) :
    read (n + 1) ('\x7b' :: (quote k ++ cs)) =
      (readMembers n (quote k ++ cs)).map fun p => (.obj p.1, p.2) := rfl

section

variable {n : Nat} {cs rest rest' : List Char} {d : Document}

theorem readItems_last (h : read n cs = .ok (d, ']' :: rest)) :
    readItems (n + 1) cs = .ok ([d], rest) := by
  rw [readItems, h]
  rfl

theorem readItems_next {ds : List Document} (h : read n cs = .ok (d, ',' :: rest))
    (hnext : readItems n rest = .ok (ds, rest')) :
    readItems (n + 1) cs = .ok (d :: ds, rest') := by
  have hstep : readItems (n + 1) cs = (readItems n rest).map fun p => (d :: p.1, p.2) := by
    rw [readItems, h]
    rfl
  rw [hstep, hnext]
  rfl

theorem readMembers_quote (n : Nat) (k : String) (cs : List Char) :
    readMembers (n + 1) (quote k ++ ':' :: cs) = read n cs >>= fun p =>
      match skipSpace p.2 with
      | [] => .error .truncated
      | ',' :: rest => (readMembers n rest).map fun q => ((k, p.1) :: q.1, q.2)
      | '\x7d' :: rest => .ok ([(k, p.1)], rest)
      | _ => .error .malformed := by
  rw [readMembers, expectName_quote]
  rfl

theorem readMembers_last (k : String) (h : read n cs = .ok (d, '\x7d' :: rest)) :
    readMembers (n + 1) (quote k ++ ':' :: cs) = .ok ([(k, d)], rest) := by
  rw [readMembers_quote, h]
  rfl

theorem readMembers_next (k : String) {ds : List (String × Document)}
    (h : read n cs = .ok (d, ',' :: rest)) (hnext : readMembers n rest = .ok (ds, rest')) :
    readMembers (n + 1) (quote k ++ ':' :: cs) = .ok ((k, d) :: ds, rest') := by
  have hstep : readMembers (n + 1) (quote k ++ ':' :: cs) =
      (readMembers n rest).map fun q => ((k, d) :: q.1, q.2) := by
    rw [readMembers_quote, h]
    rfl
  rw [hstep, hnext]
  rfl

end

end Document

mutual

/-- A value that was written is read, and nothing behind it. -/
theorem read_chars : (j : Json) → (n : Nat) → (rest : List Char) → 2 * j.chars.length ≤ n →
    Document.Behind rest → Document.read (n + 1) (j.chars ++ rest) = .ok (j.document, rest)
  | .null, _, _, _, _ => rfl
  | .bool b, n, rest, _, _ => Document.read_bool b n rest
  | .int i, n, _, _, hrest => (Document.spells_int i).read hrest n
  | .float bits, n, _, _, hrest => Document.read_float bits n hrest
  | .str s, n, rest, _, _ => Document.read_quote s n rest
  | .arr [], _, _, _, _ => rfl
  | .arr (j :: js), n, rest, hn, _ => by
      have hlen : (Json.arr (j :: js)).chars.length = (charsOfItems (j :: js)).length + 2 := by
        simp [chars]
      cases n with
      | zero => omega
      | succ n =>
          have hitems := readItems_chars j js n rest (by omega)
          obtain ⟨c, cs, hc, hspace, hclose⟩ := exists_charsOfItems_cons j js
          have hread := Document.read_bracket hspace hclose (n + 1) (cs ++ ']' :: rest)
          have htext : (Json.arr (j :: js)).chars ++ rest =
              '[' :: (charsOfItems (j :: js) ++ ']' :: rest) := by simp [chars]
          rw [hc] at hitems htext
          rw [htext]
          exact hread.trans (congrArg _ hitems)
  | .obj [], _, _, _, _ => rfl
  | .obj ((k, j) :: ms), n, rest, hn, _ => by
      have hlen : (Json.obj ((k, j) :: ms)).chars.length =
          (charsOfMembers ((k, j) :: ms)).length + 2 := by
        simp [chars]
      cases n with
      | zero => omega
      | succ n =>
          have hmembers := readMembers_chars k j ms n rest (by omega)
          obtain ⟨cs, hc⟩ := exists_charsOfMembers_append k j ms
          have hread := Document.read_brace (n + 1) k (cs ++ '\x7d' :: rest)
          have htext : (Json.obj ((k, j) :: ms)).chars ++ rest =
              '\x7b' :: (charsOfMembers ((k, j) :: ms) ++ '\x7d' :: rest) := by simp [chars]
          rw [hc, List.append_assoc] at hmembers htext
          rw [htext]
          exact hread.trans (congrArg _ hmembers)
termination_by _ n => n

theorem readItems_chars : (j : Json) → (js : List Json) → (n : Nat) → (rest : List Char) →
    2 * (charsOfItems (j :: js)).length + 1 ≤ n →
    Document.readItems (n + 1) (charsOfItems (j :: js) ++ ']' :: rest) =
      .ok (documentsOf (j :: js), rest)
  | j, [], n, rest, hn => by
      rw [charsOfItems] at hn ⊢
      cases n with
      | zero => omega
      | succ n =>
          have hj := read_chars j n (']' :: rest) (by omega) (by rintro c ⟨⟩; rfl)
          exact Document.readItems_last hj
  | j, j' :: js, n, rest, hn => by
      have htext : charsOfItems (j :: j' :: js) = j.chars ++ ',' :: charsOfItems (j' :: js) := rfl
      have hlen := congrArg List.length htext
      rw [List.length_append, List.length_cons] at hlen
      cases n with
      | zero => omega
      | succ n =>
          have hj := read_chars j n (',' :: (charsOfItems (j' :: js) ++ ']' :: rest)) (by omega)
            (by rintro c ⟨⟩; rfl)
          have hjs := readItems_chars j' js n rest (by omega)
          rw [htext, List.append_assoc]
          exact Document.readItems_next hj hjs
termination_by _ _ n => n

theorem readMembers_chars : (k : String) → (j : Json) → (ms : List (String × Json)) → (n : Nat) →
    (rest : List Char) → 2 * (charsOfMembers ((k, j) :: ms)).length + 1 ≤ n →
    Document.readMembers (n + 1) (charsOfMembers ((k, j) :: ms) ++ '\x7d' :: rest) =
      .ok (membersOf ((k, j) :: ms), rest)
  | k, j, [], n, rest, hn => by
      have htext : charsOfMembers [(k, j)] = quote k ++ ':' :: j.chars := rfl
      have hlen := congrArg List.length htext
      rw [List.length_append, List.length_cons] at hlen
      cases n with
      | zero => omega
      | succ n =>
          have hj := read_chars j n ('\x7d' :: rest) (by omega) (by rintro c ⟨⟩; rfl)
          rw [htext, List.append_assoc]
          exact Document.readMembers_last k hj
  | k, j, (k', j') :: ms, n, rest, hn => by
      have htext : charsOfMembers ((k, j) :: (k', j') :: ms) =
          quote k ++ ':' :: j.chars ++ ',' :: charsOfMembers ((k', j') :: ms) := rfl
      have hlen := congrArg List.length htext
      rw [List.length_append, List.length_append, List.length_cons, List.length_cons] at hlen
      cases n with
      | zero => omega
      | succ n =>
          have hj := read_chars j n (',' :: (charsOfMembers ((k', j') :: ms) ++ '\x7d' :: rest))
            (by omega) (by rintro c ⟨⟩; rfl)
          have hms := readMembers_chars k' j' ms n rest (by omega)
          have hnext := Document.readMembers_next k hj hms
          rw [htext, List.append_assoc, List.append_assoc]
          exact hnext
termination_by _ _ _ n => n

end

/-- A value that was written is read back. -/
theorem ofText?_render (j : Json) : Document.ofText? j.render = .ok j.document := by
  have hread := read_chars j (2 * j.chars.length + 1) [] (by omega) nofun
  have hchars : j.render.toList = j.chars := String.toList_ofList
  rw [List.append_nil] at hread
  simp only [Document.ofText?, readAll, hchars, hread]
  rfl

end HotLoop.Json
