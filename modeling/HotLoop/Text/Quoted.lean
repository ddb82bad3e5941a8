import HotLoop.Text.Numeral
import HotLoop.Text.Unprintable

/-!
# Quoted texts

A text is shown between double quotes. Tab, line feed, carriage return, the zero character, the
backslash and the quote have short escapes; other unprintable characters are shown by their code
point. A single quote stands for itself.
-/

namespace HotLoop.Text

/-- The short escape of a character, without its backslash. -/
def shortEscape? : Char → Option Char
  | '\x00' => some '0'
  | '\t' => some 't'
  | '\n' => some 'n'
  | '\r' => some 'r'
  | '\\' => some '\\'
  | '"' => some '"'
  | _ => none

def escape (c : Char) : List Char :=
  match shortEscape? c with
  | some e => ['\\', e]
  | none =>
    if isUnprintable c then ['\\', 'u', '\x7b'] ++ hexDigits c.toNat ++ ['\x7d'] else [c]

def quoteChars (cs : List Char) : List Char := '"' :: cs.flatMap escape ++ ['"']

def quote (s : String) : String := String.ofList (quoteChars s.toList)

/-- A list of quoted texts between brackets. -/
def quoteAll (l : List String) : String := "[" ++ ", ".intercalate (l.map quote) ++ "]"

end HotLoop.Text
