import HotLoop.Error
import HotLoop.Field.Flags
import HotLoop.FinMap

/-!
# Field declarations

A class declares which of its fields compiled code may treat as constants: `a` is immutable, `a?`
quasi-immutable, and `[*]` behind either marks an array. `Declaration.text` writes a declaration and
`Declaration.ofChars?` reads it.
-/

namespace HotLoop.Field

structure Declaration where
  name : String
  quasi : Bool
  array : Bool
  deriving DecidableEq

namespace Declaration

def isNameStart (c : Char) : Bool :=
  ('A' ≤ c && c ≤ 'Z') || ('a' ≤ c && c ≤ 'z') || c == '_'

def isNameChar (c : Char) : Bool := isNameStart c || ('0' ≤ c && c ≤ '9')

def flags (d : Declaration) : Flags :=
  (if d.quasi then Flags.quasiImmutable else Flags.immutable).union
    (if d.array then Flags.array else Flags.empty)

def text (d : Declaration) : List Char :=
  d.name.toList ++ (if d.quasi then ['?'] else []) ++ (if d.array then ['[', '*', ']'] else [])

/-- The marks behind a name. -/
def marks? : List Char → Option (Bool × Bool)
  | [] => some (false, false)
  | ['?'] => some (true, false)
  | ['[', '*', ']'] => some (false, true)
  | ['?', '[', '*', ']'] => some (true, true)
  | _ => none

def ofChars? (cs : List Char) : Option Declaration :=
  if (cs.head?.map isNameStart).getD false then
    (marks? (cs.dropWhile isNameChar)).map fun m =>
      ⟨String.ofList (cs.takeWhile isNameChar), m.1, m.2⟩
  else none

/-- Reads a declaration; blanks around it do not count. -/
def parse (spec : String) : Except Error Declaration :=
  match ofChars? (Text.trimChars spec.toList) with
  | some d => .ok d
  | none => .error (.declaration spec .illFormed)

end Declaration

/-- The declarations of one class. -/
structure Declarations where
  fields : FinMap String Flags

namespace Declarations

def empty : Declarations := ⟨∅⟩

/-- Adds declarations in turn. A name must not be declared twice, whatever its marks. -/
def addAll (ds : Declarations) : List String → Except Error Declarations
  | [] => .ok ds
  | spec :: specs =>
    match Declaration.parse spec with
    | .error e => .error e
    | .ok d =>
      if ds.fields.contains d.name then .error (.declaration spec .declaredTwice)
      else addAll ⟨ds.fields.insert d.name d.flags⟩ specs

def parse (specs : List String) : Except Error Declarations := empty.addAll specs

def names (ds : Declarations) : List String := ds.fields.keys

def flags (ds : Declarations) (name : String) : Flags := ds.fields.findD name .empty

def IsImmutable (ds : Declarations) (name : String) : Prop := (ds.flags name).Has .immutable

def IsQuasi (ds : Declarations) (name : String) : Prop := (ds.flags name).Has .quasiImmutable

instance (ds : Declarations) (name : String) : Decidable (ds.IsImmutable name) :=
  inferInstanceAs (Decidable (Flags.Has _ _))

instance (ds : Declarations) (name : String) : Decidable (ds.IsQuasi name) :=
  inferInstanceAs (Decidable (Flags.Has _ _))

end Declarations

end HotLoop.Field
