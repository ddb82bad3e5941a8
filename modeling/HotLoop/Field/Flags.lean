import HotLoop.Json.Scan
import HotLoop.Json.Value
import HotLoop.Text.Blank

/-!
# Field flags

How compiled code may treat a field: a set of eight bits, three of which have names. As text the
named bits that are set come first, then the others as one hexadecimal number.
-/

namespace HotLoop.Field

structure Flags where
  bits : UInt8
  deriving DecidableEq

namespace Flags

def empty : Flags := ⟨0⟩

def immutable : Flags := ⟨1⟩

def quasiImmutable : Flags := ⟨2⟩

def array : Flags := ⟨4⟩

def union (f g : Flags) : Flags := ⟨f.bits ||| g.bits⟩

/-- Whether all flags of `g` are set in `f`. -/
def Has (f g : Flags) : Prop := f.bits &&& g.bits = g.bits

instance (f g : Flags) : Decidable (f.Has g) := inferInstanceAs (Decidable (_ = _))

/-- The bits that have names. -/
def known (f : Flags) : Flags := ⟨f.bits &&& 7⟩

def unknown (f : Flags) : UInt8 := f.bits &&& 248

def names : List (Flags × String) :=
  [(immutable, "IMMUTABLE"), (quasiImmutable, "QUASI_IMMUTABLE"), (array, "ARRAY")]

def words (f : Flags) : List String :=
  (names.filter fun n => decide (f.Has n.1)).map (·.2) ++
    if f.unknown = 0 then [] else ["0x" ++ String.ofList (Text.hexDigits f.unknown.toNat)]

def text (f : Flags) : String := " | ".intercalate f.words

/-- The set with its type's name; the empty set is shown as the number zero. -/
def describe (f : Flags) : String :=
  "FieldFlags(" ++ (if f.words = [] then "0x0" else f.text) ++ ")"

/-- A name, or the two characters `0x` and a hexadecimal number. -/
def word? (cs : List Char) : Option Flags :=
  match cs with
  | '0' :: 'x' :: digits => (Text.natural? 16 256 digits).map fun n => ⟨n.toUInt8⟩
  | _ => (names.find? fun n => n.2.toList == cs).map (·.1)

/-- Words separated by bars. A text of blanks alone is the empty set. -/
def ofText? (s : String) : Option Flags :=
  if Text.trimChars s.toList = [] then some empty
  else (Text.pieces '|' s.toList).foldlM
    (fun f cs => (word? (Text.trimChars cs)).map f.union) empty

def ofJson? (s : String) : Except Json.Problem Flags :=
  Json.readAll (fun cs => do
    let (text, rest) ← Json.expectString cs
    match ofText? text with
    | some f => .ok (f, rest)
    | none => .error .mistyped) s

end Flags

end HotLoop.Field
