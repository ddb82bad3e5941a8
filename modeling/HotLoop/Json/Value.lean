import HotLoop.Decimal.Layout
import HotLoop.Text.Numeral

/-!
# JSON values and their compact text

Objects keep their members in the order given. The text has no white space; a float is written with
the fewest digits that read back, and one that is not finite is written as null.
-/

namespace HotLoop

inductive Json where
  | null
  | bool (b : Bool)
  | int (i : Int)
  /-- A float by its 64-bit pattern. -/
  | float (bits : UInt64)
  | str (s : String)
  | arr (items : List Json)
  | obj (members : List (String × Json))

namespace Json

/-- Ties go to the even digit, and small numbers down to five zeros behind the point are plain. -/
def floatLayout : Decimal.Layout where
  tie := .toEven
  plainFrom := -5
  plainTo := 15
  plusSign := true
  nan := "null"
  infinity := "null"
  minusInfinity := "null"

/-- The short escape of a character, without its backslash. -/
def shortEscape? : Char → Option Char
  | '"' => some '"'
  | '\\' => some '\\'
  | '\x08' => some 'b'
  | '\x0c' => some 'f'
  | '\n' => some 'n'
  | '\r' => some 'r'
  | '\t' => some 't'
  | _ => none

/-- The other controls below the space have four hexadecimal digits; all else stands for itself. -/
def escape (c : Char) : List Char :=
  match shortEscape? c with
  | some e => ['\\', e]
  | none =>
    if c.toNat < 0x10 then ['\\', 'u', '0', '0', '0'] ++ Text.hexDigits c.toNat
    else if c.toNat < 0x20 then ['\\', 'u', '0', '0'] ++ Text.hexDigits c.toNat
    else [c]

def quote (s : String) : List Char := '"' :: s.toList.flatMap escape ++ ['"']

mutual

def chars : Json → List Char
  | .null => ['n', 'u', 'l', 'l']
  | .bool true => ['t', 'r', 'u', 'e']
  | .bool false => ['f', 'a', 'l', 's', 'e']
  | .int i => (toString i).toList
  | .float bits => (floatLayout.render bits).toList
  | .str s => quote s
  | .arr items => '[' :: charsOfItems items ++ [']']
  | .obj members => '\x7b' :: charsOfMembers members ++ ['\x7d']

/-- The items, separated by commas. -/
def charsOfItems : List Json → List Char
  | [] => []
  | [j] => j.chars
  | j :: js => j.chars ++ ',' :: charsOfItems js

/-- The members, separated by commas. -/
def charsOfMembers : List (String × Json) → List Char
  | [] => []
  | [(k, j)] => quote k ++ ':' :: j.chars
  | (k, j) :: ms => quote k ++ ':' :: j.chars ++ ',' :: charsOfMembers ms

end

def render (j : Json) : String := String.ofList j.chars

end Json

end HotLoop
