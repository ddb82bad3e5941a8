import HotLoop.Lifecycle.Notice
import HotLoop.Proofs.Documents
import HotLoop.Text.Blank
import Mathlib.Data.List.Forall2

/-!
# Notices as lines of JSON

A value in JSON holds no control character, a line break least of all: so each notice fills one
line, whatever the texts in it. Main statement: `forall₂_readAs_jsonLines`, cut at its line breaks
the text falls into one line for each notice and an empty rest, and a line read as JSON tells what
the notice does.
-/

namespace HotLoop

namespace Text

theorem pieces_append {sep : Char} {l : List Char} (hl : sep ∉ l) (cs : List Char) :
    pieces sep (l ++ sep :: cs) = l :: pieces sep cs := by
  induction l with
  | nil => rw [List.nil_append, pieces, if_pos rfl]
  | cons c l ih =>
      have hc : c ≠ sep := fun h => hl (h ▸ List.mem_cons_self)
      have hrest := ih fun h => hl (List.mem_cons_of_mem c h)
      rw [List.cons_append, pieces, if_neg hc, hrest]

/-- Lines that each end with the separator, and nothing behind the last one. -/
theorem pieces_flatMap (sep : Char) {α : Type} (line : α → List Char) (as : List α)
    (h : ∀ a ∈ as, sep ∉ line a) :
    pieces sep (as.flatMap fun a => line a ++ [sep]) = as.map line ++ [[]] := by
  induction as with
  | nil => rfl
  | cons a as ih =>
      have ha := h a List.mem_cons_self
      have hrest := ih fun b hb => h b (List.mem_cons_of_mem a hb)
      rw [List.flatMap_cons, List.append_assoc, List.singleton_append, pieces_append ha, hrest,
        List.map_cons, List.cons_append]

end Text

namespace Json

/-! ## No control characters -/

def Plain (cs : List Char) : Prop := ∀ c ∈ cs, 0x20 ≤ c.toNat

theorem Plain.append {a b : List Char} (ha : Plain a) (hb : Plain b) : Plain (a ++ b) :=
  List.forall_mem_append.2 ⟨ha, hb⟩

theorem Plain.cons {c : Char} {cs : List Char} (hc : 0x20 ≤ c.toNat) (hcs : Plain cs) :
    Plain (c :: cs) :=
  List.forall_mem_cons.2 ⟨hc, hcs⟩

theorem plain_nil : Plain [] := nofun

theorem plain_of_all {cs : List Char} (h : (cs.all fun c => decide (0x20 ≤ c.toNat)) = true) :
    Plain cs :=
  fun c hc => of_decide_eq_true (List.all_eq_true.1 h c hc)

theorem le_toNat_of_digit? {c : Char} (h : (Text.digit? 16 c).isSome = true) : 0x20 ≤ c.toNat := by
  by_contra hc
  have hbelow : ∀ d : Char, 0x20 ≤ d.toNat → ¬d ≤ c := by
    intro d hd hle
    have : d.toNat ≤ c.toNat := hle
    omega
  simp [Text.digit?, hbelow '0' (by decide), hbelow 'a' (by decide), hbelow 'A' (by decide)] at h

theorem plain_of_unsigned? {n : Nat} {ds : List Char} (h : Text.unsigned? 16 ds = some n) :
    Plain ds := by
  cases ds with
  | nil => exact plain_nil
  | cons d ds => exact fun c hc => le_toNat_of_digit? (Text.isSome_digit?_of_extend? h c hc)

theorem plain_escape (c : Char) : Plain (escape c) := by
  have hletter : ∀ e, unescape? e = some c → 0x20 ≤ e.toNat := by
    intro e he
    unfold unescape? at he
    split at he <;> first | decide | cases he
  rcases escape_cases c with ⟨e, -, he, h⟩ | ⟨ds, -, hds, -, h⟩ | ⟨h, -, -, hle⟩
  · rw [h]
    exact plain_nil.cons (hletter e he) |>.cons (by decide)
  · rw [h]
    exact (plain_of_unsigned? hds).cons (by decide) |>.cons (by decide)
  · rw [h]
    exact plain_nil.cons hle

theorem plain_quote (s : String) : Plain (quote s) := by
  have hbody : Plain (s.toList.flatMap escape) := by
    intro d hd
    obtain ⟨c, -, hc⟩ := List.mem_flatMap.1 hd
    exact plain_escape c d hc
  exact (hbody.cons (by decide)).append (plain_nil.cons (by decide))

theorem le_toNat_of_isNumeral {c : Char} (hc : Document.isNumeral c = true) : 0x20 ≤ c.toNat := by
  simp only [Document.isNumeral, Bool.or_eq_true, beq_iff_eq] at hc
  rcases hc with ((((hc | rfl) | rfl) | rfl) | rfl) | rfl
  · have hle : '0' ≤ c := of_decide_eq_true (Bool.and_eq_true_iff.1 hc).1
    have hle' : 48 ≤ c.toNat := hle
    omega
  all_goals decide

theorem Document.Spells.plain {cs : List Char} {d : Document} (h : d.Spells cs) : Plain cs :=
  fun c hc => le_toNat_of_isNumeral (h.isNumeral c hc)

mutual

theorem plain_chars : (j : Json) → Plain j.chars
  | .null => plain_of_all rfl
  | .bool true => plain_of_all rfl
  | .bool false => plain_of_all rfl
  | .int i => (Document.spells_int i).plain
  | .float bits => by
      rcases Document.float_cases bits with ⟨h, -⟩ | h
      · rw [h]
        exact plain_of_all rfl
      · exact h.plain
  | .str s => plain_quote s
  | .arr items => ((plain_charsOfItems items).cons (by decide)).append (plain_nil.cons (by decide))
  | .obj ms => ((plain_charsOfMembers ms).cons (by decide)).append (plain_nil.cons (by decide))

theorem plain_charsOfItems : (js : List Json) → Plain (charsOfItems js)
  | [] => plain_nil
  | [j] => plain_chars j
  | j :: j' :: js => (plain_chars j).append ((plain_charsOfItems (j' :: js)).cons (by decide))

theorem plain_charsOfMembers : (ms : List (String × Json)) → Plain (charsOfMembers ms)
  | [] => plain_nil
  | [(k, j)] => (plain_quote k).append ((plain_chars j).cons (by decide))
  | (k, j) :: m :: ms =>
      ((plain_quote k).append ((plain_chars j).cons (by decide))).append
        ((plain_charsOfMembers (m :: ms)).cons (by decide))

end

theorem newline_not_mem_chars (j : Json) : '\n' ∉ j.chars :=
  fun h => absurd (plain_chars j '\n' h) (by decide)

theorem documentsOf_map {α : Type} (f : α → Json) (as : List α) :
    documentsOf (as.map f) = as.map fun a => (f a).document := by
  induction as with
  | nil => rfl
  | cons a as ih => rw [List.map_cons, documentsOf, ih, List.map_cons]

end Json

/-! ## What a line tells -/

open Json (Document)

/-- What a green value is read as. An integer and a reference are both a number, and a float is a
number or null. -/
inductive Green.ReadAs : Green → Document → Prop
  | int (i : Int) : ReadAs (.int i) (.int i)
  | bool (b : Bool) : ReadAs (.bool b) (.bool b)
  | str (s : String) : ReadAs (.str s) (.str s)
  | ref (o : ObjectId) : ReadAs (.ref o) (.int o.number)
  | number (bits : UInt64) (literal : List Char) : ReadAs (.float bits) (.decimal literal)
  | null (bits : UInt64) : ReadAs (.float bits) .null

theorem Green.readAs_toJson (g : Green) : g.ReadAs g.toJson.document := by
  cases g with
  | int i => exact .int i
  | float bits =>
      have hcases : (Json.float bits).document = .null ∨
          (Json.float bits).document = .decimal (Json.floatLayout.render bits).toList := by
        rw [Json.document]
        split_ifs <;> simp
      rcases hcases with h | h <;> rw [toJson, h]
      · exact .null bits
      · exact .number bits _
  | bool b => exact .bool b
  | str s => exact .str s
  | ref o => exact .ref o

theorem Key.forall₂_readAs (k : Key) :
    ∃ items, k.toJson.document = .arr items ∧ List.Forall₂ Green.ReadAs k.values items := by
  have hitems : ∀ gs : List Green,
      List.Forall₂ Green.ReadAs gs (Json.documentsOf (gs.map Green.toJson)) := by
    intro gs
    induction gs with
    | nil => exact .nil
    | cons g gs ih => exact .cons g.readAs_toJson ih
  exact ⟨_, rfl, hitems k.values⟩

namespace Trace

/-- The cause that is told by its name or, when it is a custom one, by its number. -/
def Abort.ofDocument? : Document → Option Abort
  | .str name => (named? name).join
  | .obj [(name, .int n)] => if named? name = some none then some (.custom n.toNat) else none
  | _ => none

theorem Abort.ofDocument?_toJson (a : Abort) : ofDocument? a.toJson.document = some a := by
  cases a <;> rfl

def Kind.ofDocument? : Document → Option Kind
  | .str name => named? name
  | _ => none

theorem Kind.ofDocument?_toJson (k : Kind) : ofDocument? k.toJson.document = some k := by
  cases k <;> rfl

end Trace

namespace Lifecycle.Notice

open Trace

/-- What a notice is read as: an object with these members in this order. -/
inductive ReadAs : Notice → Document → Prop
  | abort {cause : Abort} {reason : Document} {k : Key} {items : List Document}
      (hcause : Abort.ofDocument? reason = some cause)
      (hkey : List.Forall₂ Green.ReadAs k.values items) (e : EntryPoint) :
      ReadAs (.abort cause e k)
        (.obj [("event", .str "abort"), ("reason", reason), ("entry", .str e.name),
          ("key", .arr items)])
  | compile {kind : Kind} {name : Document} {k : Key} {items : List Document}
      (hkind : Kind.ofDocument? name = some kind)
      (hkey : List.Forall₂ Green.ReadAs k.values items) (e : EntryPoint) (h : Handle)
      (ops : List Op) (address length : Nat) :
      ReadAs (.compile e k h ops kind address length)
        (.obj [("event", .str "compile"), ("entry", .str e.name), ("key", .arr items),
          ("artifact", .int h.number), ("kind", name), ("address", .int address),
          ("length", .int length), ("operations", .arr (ops.map fun op => .str (toString op)))])
  | bridge (e : EntryPoint) (h b : Handle) (i : Nat) (ops : List Op) (address length : Nat) :
      ReadAs (.bridge e h b i ops address length)
        (.obj [("event", .str "bridge"), ("entry", .str e.name), ("orig", .int h.number),
          ("bridge", .int b.number), ("fail_index", .int i), ("address", .int address),
          ("length", .int length), ("operations", .arr (ops.map fun op => .str (toString op)))])

theorem readAs_toJson (n : Notice) : n.ReadAs n.toJson.document := by
  have hops : ∀ ops : List Op,
      Json.documentsOf (ops.map fun op => Json.str (toString op)) =
        ops.map fun op => .str (toString op) :=
    Json.documentsOf_map _
  cases n with
  | abort cause e k =>
      obtain ⟨items, hitems, hkey⟩ := k.forall₂_readAs
      simp only [toJson, Json.document, Json.membersOf, hitems]
      exact .abort cause.ofDocument?_toJson hkey e
  | compile e k h ops kind address length =>
      obtain ⟨items, hitems, hkey⟩ := k.forall₂_readAs
      simp only [toJson, Json.document, Json.membersOf, hitems, hops]
      exact .compile kind.ofDocument?_toJson hkey e h ops address length
  | bridge e h b i ops address length =>
      simp only [toJson, Json.document, Json.membersOf, hops]
      exact .bridge e h b i ops address length

/-- Cut at its line breaks, the text has one line for each notice and nothing behind the last; each
line is not empty and, read as JSON, tells what its notice does. -/
theorem forall₂_readAs_jsonLines (ns : List Notice) :
    ∃ lines, Text.pieces '\n' (jsonLines ns).toList = lines ++ [[]] ∧
      List.Forall₂ (fun line n => line ≠ [] ∧
        ∃ d, Document.ofText? (String.ofList line) = .ok d ∧ n.ReadAs d) lines ns := by
  have hcut := Text.pieces_flatMap '\n' (fun n : Notice => n.toJson.chars) ns
    fun n _ => Json.newline_not_mem_chars n.toJson
  refine ⟨ns.map fun n => n.toJson.chars, ?_, ?_⟩
  · rw [jsonLines, String.toList_ofList, hcut]
  · apply List.forall₂_map_left_iff.2
    apply List.forall₂_same.2
    intro n _
    obtain ⟨c, rest, hc, -⟩ := Json.exists_chars_cons n.toJson
    have hne : n.toJson.chars ≠ [] := by
      rw [hc]
      exact List.cons_ne_nil c rest
    exact ⟨hne, n.toJson.document, Json.ofText?_render n.toJson, n.readAs_toJson⟩

end Lifecycle.Notice

end HotLoop
