import HotLoop.Field.Declaration
import HotLoop.Proofs.Spelling

/-!
# The forms of a declaration

A declaration is an identifier, then perhaps a question mark, and then perhaps brackets around a
star. Reading accepts these forms with blanks around them and nothing else, and the name and the
flags that it gives are enough to write the declaration down again.
-/

namespace HotLoop.Field

/-- An ASCII letter or an underscore, and then ASCII letters, digits and underscores. -/
def Identifier (cs : List Char) : Prop :=
  ∃ c rest, cs = c :: rest ∧ (c.isAlpha = true ∨ c = '_') ∧
    ∀ d ∈ rest, d.isAlphanum = true ∨ d = '_'

def marks (quasi array : Bool) : List Char :=
  (if quasi then ['?'] else []) ++ (if array then ['[', '*', ']'] else [])

/-- The flags of a declaration with these marks: one of the first two, and none without a name. -/
structure Flags.Marked (f : Flags) (quasi array : Bool) : Prop where
  immutable : f.Has .immutable ↔ quasi = false
  quasiImmutable : f.Has .quasiImmutable ↔ quasi = true
  array : f.Has .array ↔ array = true
  unknown : f.unknown = 0

def Flags.marks (f : Flags) : List Char :=
  Field.marks (decide (f.Has .quasiImmutable)) (decide (f.Has .array))

theorem Flags.Marked.marks_eq {f : Flags} {quasi array : Bool} (h : f.Marked quasi array) :
    f.marks = Field.marks quasi array := by
  simp only [Flags.marks, h.quasiImmutable, h.array, Bool.decide_eq_true]

namespace Declaration

variable {cs : List Char} {d : Declaration} {s : String}

theorem marked_flags (d : Declaration) : d.flags.Marked d.quasi d.array := by
  have h : ∀ quasi array, (flags ⟨"", quasi, array⟩).Marked quasi array := by
    intro quasi array
    cases quasi <;> cases array <;> exact ⟨by decide, by decide, by decide, by decide⟩
  exact h d.quasi d.array

theorem text_eq (d : Declaration) : d.text = d.name.toList ++ marks d.quasi d.array :=
  List.append_assoc _ _ _

/-! ## Characters -/

theorem isNameStart_iff {c : Char} : isNameStart c = true ↔ c.isAlpha = true ∨ c = '_' := by
  have hupper : c.isUpper = ('A' ≤ c && c ≤ 'Z') := Bool.decide_and _ _
  have halpha : c.isAlpha = (('A' ≤ c && c ≤ 'Z') || ('a' ≤ c && c ≤ 'z')) :=
    congrArg (· || c.isLower) hupper
  rw [isNameStart, halpha, Bool.or_eq_true, beq_iff_eq]

theorem isNameChar_iff {c : Char} : isNameChar c = true ↔ c.isAlphanum = true ∨ c = '_' := by
  have hdigit : ('0' ≤ c && c ≤ '9') = c.isDigit := rfl
  rw [isNameChar, Bool.or_eq_true, isNameStart_iff, Char.isAlphanum, Bool.or_eq_true, hdigit]
  exact or_right_comm

theorem isNameChar_of_isNameStart {c : Char} (h : isNameStart c = true) : isNameChar c = true := by
  rw [isNameChar, h, Bool.true_or]

theorem identifier_iff : Identifier cs ↔
    (cs.head?.map isNameStart).getD false = true ∧ ∀ c ∈ cs, isNameChar c = true := by
  cases cs with
  | nil => simp [Identifier]
  | cons c rest =>
      simp only [Identifier, ← isNameStart_iff, ← isNameChar_iff, List.cons.injEq,
        List.forall_mem_cons, List.head?_cons, Option.map_some, Option.getD_some]
      constructor
      · rintro ⟨_, _, ⟨rfl, rfl⟩, hc, hrest⟩
        exact ⟨hc, isNameChar_of_isNameStart hc, hrest⟩
      · rintro ⟨hc, -, hrest⟩
        exact ⟨c, rest, ⟨rfl, rfl⟩, hc, hrest⟩

theorem isBlank_of_isNameChar {c : Char} (h : isNameChar c = true) : Text.isBlank c = false := by
  simp only [isNameChar, isNameStart, Bool.or_eq_true, Bool.and_eq_true, decide_eq_true_iff,
    beq_iff_eq, Char.le_def, UInt32.le_iff_toNat_le] at h
  change ((65 ≤ c.toNat ∧ c.toNat ≤ 90 ∨ 97 ≤ c.toNat ∧ c.toNat ≤ 122) ∨ c = '_') ∨
    48 ≤ c.toNat ∧ c.toNat ≤ 57 at h
  have hc : 48 ≤ c.toNat ∧ c.toNat ≤ 122 := by
    rcases h with ((h | h) | rfl) | h
    · omega
    · omega
    · decide
    · omega
  simp only [Text.isBlank, Text.blankRanges, List.any_cons, List.any_nil, Bool.or_false,
    Bool.or_eq_false_iff, Bool.and_eq_false_iff, decide_eq_false_iff_not]
  omega

/-! ## Reading -/

theorem marks?_eq_some_iff {m : Bool × Bool} : marks? cs = some m ↔ cs = marks m.1 m.2 := by
  constructor
  · intro h
    unfold marks? at h
    split at h <;> cases h <;> rfl
  · rintro rfl
    obtain ⟨quasi, array⟩ := m
    cases quasi <;> cases array <;> rfl

theorem mem_of_mem_marks {quasi array : Bool} {c : Char} (h : c ∈ marks quasi array) :
    c = '?' ∨ c = '[' ∨ c = '*' ∨ c = ']' := by
  cases quasi <;> cases array <;> simp [marks] at h <;> tauto

theorem not_isNameChar_of_mem_marks {quasi array : Bool} {c : Char} (h : c ∈ marks quasi array) :
    ¬ isNameChar c = true := by
  rcases mem_of_mem_marks h with rfl | rfl | rfl | rfl <;> decide

theorem isBlank_of_mem_marks {quasi array : Bool} {c : Char} (h : c ∈ marks quasi array) :
    Text.isBlank c = false := by
  rcases mem_of_mem_marks h with rfl | rfl | rfl | rfl <;> rfl

theorem takeWhile_text (h : Identifier d.name.toList) :
    d.text.takeWhile isNameChar = d.name.toList ∧
      d.text.dropWhile isNameChar = marks d.quasi d.array := by
  have hname := (identifier_iff.1 h).2
  rw [text_eq, List.takeWhile_append_of_pos hname, List.dropWhile_append_of_pos hname]
  cases hm : marks d.quasi d.array with
  | nil => simp
  | cons c rest =>
      have hc : ¬ isNameChar c = true := not_isNameChar_of_mem_marks (hm ▸ List.mem_cons_self)
      rw [List.takeWhile_cons_of_neg hc, List.dropWhile_cons_of_neg hc, List.append_nil]
      exact ⟨rfl, rfl⟩

/-- What is read is the text of a declaration whose name is an identifier. -/
theorem ofChars?_eq_some_iff :
    ofChars? cs = some d ↔ Identifier d.name.toList ∧ cs = d.text := by
  constructor
  · intro h
    unfold ofChars? at h
    split_ifs at h with hhead
    obtain ⟨m, hm, rfl⟩ := Option.map_eq_some_iff.1 h
    have hcs : cs.takeWhile isNameChar ++ marks m.1 m.2 = cs := by
      rw [← marks?_eq_some_iff.1 hm, List.takeWhile_append_dropWhile]
    refine ⟨?_, ?_⟩
    · rw [String.toList_ofList]
      refine identifier_iff.2 ⟨?_, fun c hc => List.mem_takeWhile_imp hc⟩
      -- the first character begins a name, so it is taken
      cases cs with
      | nil => exact hhead
      | cons c rest =>
          rw [List.takeWhile_cons_of_pos (isNameChar_of_isNameStart hhead)]
          exact hhead
    · rw [text_eq, String.toList_ofList, hcs]
  · rintro ⟨hname, rfl⟩
    obtain ⟨htake, hdrop⟩ := takeWhile_text hname
    have hhead : (d.text.head?.map isNameStart).getD false = true := by
      obtain ⟨c, rest, hc, hstart, -⟩ := hname
      rw [text_eq, hc]
      exact isNameStart_iff.2 hstart
    have hmarks : marks? (marks d.quasi d.array) = some (d.quasi, d.array) :=
      marks?_eq_some_iff.2 rfl
    unfold ofChars?
    rw [if_pos hhead, htake, hdrop, hmarks, Option.map_some, String.ofList_toList]

theorem parse_eq_ok_iff :
    parse s = .ok d ↔ Identifier d.name.toList ∧ Text.Trims s.toList d.text := by
  rw [← Text.trimChars_eq_iff, ← ofChars?_eq_some_iff, parse]
  cases ofChars? (Text.trimChars s.toList) <;> simp

/-- There is no blank in the text of a declaration, so trimming leaves it as it is. -/
theorem trims_text (h : Identifier d.name.toList) : Text.Trims d.text d.text := by
  have htext : ∀ c ∈ d.text, Text.isBlank c = false := by
    intro c hc
    rw [text_eq, List.mem_append] at hc
    rcases hc with hc | hc
    · exact isBlank_of_isNameChar ((identifier_iff.1 h).2 c hc)
    · exact isBlank_of_mem_marks hc
  exact ⟨⟨[], [], by simp, by simp, by simp⟩, fun c hc => htext c (List.mem_of_mem_head? hc),
    fun c hc => htext c (List.mem_of_mem_getLast? hc)⟩

/-- The forms that a reader of declarations accepts, and what it reads in them. -/
structure ReadsForms (read : String → Except Error Declaration) : Prop where
  /-- Accepted is what has one of the forms, once the blanks around it are gone. Name and flags
  together give back the form. -/
  accepts (s : String) : ∃ t, Text.Trims s.toList t ∧
    ((∃ d, read s = .ok d) ↔ ∃ name quasi array, Identifier name ∧ t = name ++ marks quasi array) ∧
      ∀ d, read s = .ok d → d.name.toList ++ d.flags.marks = t
  refuses (s : String) (e : Error) (h : read s = .error e) : e = .declaration s .illFormed
  /-- The name is the identifier of the form, and the flags are those of its marks. -/
  reads (s : String) (name : List Char) (quasi array : Bool) (hname : Identifier name)
    (ht : Text.Trims s.toList (name ++ marks quasi array)) :
    ∃ d, read s = .ok d ∧ d.name.toList = name ∧ d.flags.Marked quasi array
  /-- Every identifier is read back with all marks. -/
  readsBack (name : List Char) (quasi array : Bool) (hname : Identifier name) :
    ∃ d, read (String.ofList (name ++ marks quasi array)) = .ok d ∧ d.name.toList = name ∧
      d.flags.Marked quasi array

theorem parse_of_trims {name : List Char} {quasi array : Bool} (hname : Identifier name)
    (ht : Text.Trims s.toList (name ++ marks quasi array)) :
    parse s = .ok ⟨String.ofList name, quasi, array⟩ := by
  refine parse_eq_ok_iff.2 ⟨?_, ?_⟩
  · rwa [String.toList_ofList]
  · rwa [text_eq, String.toList_ofList]

/-- Reading accepts exactly the forms of a declaration and loses nothing of them. -/
theorem readsForms_parse : ReadsForms parse where
  accepts := fun s => by
    have ht : Text.Trims s.toList (Text.trimChars s.toList) := Text.trimChars_eq_iff.1 rfl
    refine ⟨_, ht, ⟨?_, ?_⟩, ?_⟩
    · rintro ⟨d, hd⟩
      obtain ⟨hname, htext⟩ := parse_eq_ok_iff.1 hd
      exact ⟨d.name.toList, d.quasi, d.array, hname,
        (Text.trimChars_eq_iff.2 htext).trans (text_eq d)⟩
    · rintro ⟨name, quasi, array, hname, he⟩
      exact ⟨_, parse_of_trims hname (he ▸ ht)⟩
    · intro d hd
      rw [(marked_flags d).marks_eq, ← text_eq]
      exact (Text.trimChars_eq_iff.2 (parse_eq_ok_iff.1 hd).2).symm
  refuses := fun s e h => by
    unfold parse at h
    split at h <;> cases h
    rfl
  reads := fun s name quasi array hname ht =>
    ⟨_, parse_of_trims hname ht, String.toList_ofList, marked_flags _⟩
  readsBack := fun name quasi array hname => by
    have ht := trims_text (d := ⟨String.ofList name, quasi, array⟩)
      (by rwa [String.toList_ofList])
    rw [text_eq, String.toList_ofList] at ht
    exact ⟨_, parse_of_trims hname (by rwa [String.toList_ofList]), String.toList_ofList,
      marked_flags _⟩

example : parse " lst?[*]\u2003" = .ok ⟨"lst", true, true⟩ := by decide

example : parse "lst[*]?" = .error (.declaration "lst[*]?" .illFormed) := by decide

end Declaration

end HotLoop.Field
