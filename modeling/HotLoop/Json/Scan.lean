import HotLoop.Text.Numeral

/-!
# Scanning JSON from left to right

A reader that expects a certain kind of value stops at the first `Problem`: a text that is
malformed, that ends too early, or that holds a well-formed value of another kind. The scanners take
the text that is left and return what they read with the text behind it.
-/

namespace HotLoop.Json

inductive Problem where
  | malformed
  | truncated
  | mistyped
  deriving DecidableEq

def isSpace (c : Char) : Bool := c == ' ' || c == '\n' || c == '\t' || c == '\r'

def skipSpace (cs : List Char) : List Char := cs.dropWhile isSpace

def isDigit (c : Char) : Bool := '0' ≤ c && c ≤ '9'

def digitValue (c : Char) : Nat := c.toNat - '0'.toNat

/-- Scans the rest of a word whose first letter is known. -/
def word : List Char → List Char → Except Problem (List Char)
  | [], cs => .ok cs
  | _ :: _, [] => .error .truncated
  | w :: ws, c :: cs => if c = w then word ws cs else .error .malformed

/-! ## Strings -/

/-- Four hexadecimal digits. Fewer than four bytes before the end count as an early end. -/
def hexUnit (cs : List Char) : Except Problem (Nat × List Char) :=
  if (cs.take 4).foldl (fun n c => n + c.utf8Size) 0 < 4 then .error .truncated
  else match Text.unsigned? 16 (cs.take 4) with
    | some n => .ok (n, cs.drop 4)
    | none => .error .malformed

def unescape? : Char → Option Char
  | '"' => some '"'
  | '\\' => some '\\'
  | '/' => some '/'
  | 'b' => some '\x08'
  | 'f' => some '\x0c'
  | 'n' => some '\n'
  | 'r' => some '\r'
  | 't' => some '\t'
  | _ => none

/-- The second half of a surrogate pair whose first half is `high`. -/
def lowSurrogate (high : Nat) : List Char → Except Problem (Char × List Char)
  | [] => .error .truncated
  | ['\\'] => .error .truncated
  | '\\' :: 'u' :: cs => do
    let (low, rest) ← hexUnit cs
    if 0xDC00 ≤ low ∧ low ≤ 0xDFFF then
      .ok (Char.ofNat (0x10000 + (high - 0xD800) * 0x400 + (low - 0xDC00)), rest)
    else .error .malformed
  | _ => .error .malformed

/-- What stands behind a backslash. Surrogates must come in pairs. -/
def escaped : List Char → Except Problem (Char × List Char)
  | [] => .error .truncated
  | 'u' :: cs => do
    let (unit, rest) ← hexUnit cs
    if 0xDC00 ≤ unit ∧ unit ≤ 0xDFFF then .error .malformed
    else if 0xD800 ≤ unit ∧ unit < 0xDC00 then lowSurrogate unit rest
    else .ok (Char.ofNat unit, rest)
  | c :: cs =>
    match unescape? c with
    | some d => .ok (d, cs)
    | none => .error .malformed

/-- The characters of a string behind its opening quote; at most `n` of them. -/
def stringBody : Nat → List Char → Except Problem (List Char × List Char)
  | 0, _ => .error .truncated
  | _ + 1, [] => .error .truncated
  | n + 1, c :: cs =>
    if c = '"' then .ok ([], cs)
    else if c = '\\' then do
      let (d, rest) ← escaped cs
      let (s, rest) ← stringBody n rest
      .ok (d :: s, rest)
    else if c.toNat < 0x20 then .error .malformed
    else do
      let (s, rest) ← stringBody n cs
      .ok (c :: s, rest)

def string (cs : List Char) : Except Problem (String × List Char) := do
  let (s, rest) ← stringBody (cs.length + 1) cs
  .ok (String.ofList s, rest)

/-- Passes over a string behind its opening quote. Its escapes need not stand for characters. -/
def skipString : Nat → List Char → Except Problem (List Char)
  | 0, _ => .error .truncated
  | _ + 1, [] => .error .truncated
  | n + 1, c :: cs =>
    if c = '"' then .ok cs
    else if c = '\\' then
      match cs with
      | [] => .error .truncated
      | 'u' :: rest => do
        let (_, rest) ← hexUnit rest
        skipString n rest
      | d :: rest => if (unescape? d).isSome then skipString n rest else .error .malformed
    else if c.toNat < 0x20 then .error .malformed
    else skipString n cs

/-! ## Numbers -/

inductive Number where
  | natural (n : Nat)
  /-- A negative number, a fraction, or a number too large for 64 bits. -/
  | other
  deriving DecidableEq

/-- Appends digits to `n` as long as the result has 64 bits. -/
def fitDigits (n : Nat) : List Char → Nat × List Char
  | [] => (n, [])
  | c :: cs =>
    if isDigit c ∧ 10 * n + digitValue c < 0x10000000000000000 then
      fitDigits (10 * n + digitValue c) cs
    else (n, c :: cs)

/-- The number `n * 10 ^ e`, which must not be beyond the largest float. -/
def scaled (n : Nat) (e : Int) (rest : List Char) : Except Problem (Number × List Char) :=
  let huge := 308 < e || (Float.ofNat n * Float.ofScientific 1 false e.toNat).isInf
  if 0 ≤ e ∧ n ≠ 0 ∧ huge then .error .malformed else .ok (.other, rest)

/-- The exponent behind its letter, for the number `n * 10 ^ e`. -/
def exponent (n : Nat) (e : Int) (cs : List Char) : Except Problem (Number × List Char) :=
  let (minus, cs) := match cs with
    | '+' :: rest => (false, rest)
    | '-' :: rest => (true, rest)
    | _ => (false, cs)
  match cs with
  | [] => .error .truncated
  | c :: _ =>
    if isDigit c then
      let rest := cs.dropWhile isDigit
      let shift : Nat := (cs.takeWhile isDigit).foldl (fun k d => 10 * k + digitValue d) 0
      if shift < 0x80000000 then scaled n (if minus then e - shift else e + shift) rest
      else if n ≠ 0 ∧ minus = false then .error .malformed
      else .ok (.other, rest)
    else .error .malformed

/-- An exponent, if there is one. -/
def exponent? (n : Nat) (e : Int) (cs : List Char) : Except Problem (Number × List Char) :=
  match cs with
  | 'e' :: rest => exponent n e rest
  | 'E' :: rest => exponent n e rest
  | _ => scaled n e cs

/-- The digits behind the point. Those that no longer fit 64 bits are passed over. -/
def fraction (n : Nat) (e : Int) (cs : List Char) : Except Problem (Number × List Char) :=
  let (m, rest) := fitDigits n cs
  let shift : Nat := cs.length - rest.length
  match rest with
  | [] => if shift = 0 then .error .truncated else scaled m (e - shift) []
  | c :: _ =>
    if isDigit c then exponent? m (e - shift) (rest.dropWhile isDigit)
    else if shift = 0 then .error .malformed
    else exponent? m (e - shift) rest

/-- What follows the integer digits of `n * 10 ^ e`, where `whole` says whether `n` is all of it. -/
def afterInteger (n : Nat) (e : Int) (whole : Number) (cs : List Char) :
    Except Problem (Number × List Char) :=
  match cs with
  | '.' :: rest => fraction n e rest
  | 'e' :: rest => exponent n e rest
  | 'E' :: rest => exponent n e rest
  | _ => if e = 0 then .ok (whole, cs) else scaled n e cs

def unsignedNumber (negative : Bool) (cs : List Char) : Except Problem (Number × List Char) :=
  match cs with
  | [] => .error .truncated
  | '0' :: rest =>
    if (rest.head?.map isDigit).getD false then .error .malformed
    else afterInteger 0 0 (if negative then .other else .natural 0) rest
  | c :: _ =>
    if isDigit c then
      let (n, rest) := fitDigits 0 cs
      let extra := rest.takeWhile isDigit
      afterInteger n extra.length (if negative then .other else .natural n) (rest.drop extra.length)
    else .error .malformed

def number (cs : List Char) : Except Problem (Number × List Char) :=
  match cs with
  | '-' :: rest => unsignedNumber true rest
  | _ => unsignedNumber false cs

/-- The digits of an exponent in a number that is passed over. -/
def skipExponent (cs : List Char) : Except Problem (List Char) :=
  let cs := match cs with
    | '+' :: rest => rest
    | '-' :: rest => rest
    | _ => cs
  if (cs.head?.map isDigit).getD false then .ok (cs.dropWhile isDigit) else .error .malformed

/-- Passes over a number without its sign. An incomplete one is malformed, also at the end. -/
def skipNumber (cs : List Char) : Except Problem (List Char) :=
  let integer := cs.takeWhile isDigit
  if integer = [] ∨ (integer.head? = some '0' ∧ integer ≠ ['0']) then .error .malformed
  else match cs.dropWhile isDigit with
    | '.' :: rest =>
      if (rest.head?.map isDigit).getD false then
        match rest.dropWhile isDigit with
        | 'e' :: rest => skipExponent rest
        | 'E' :: rest => skipExponent rest
        | rest => .ok rest
      else .error .malformed
    | 'e' :: rest => skipExponent rest
    | 'E' :: rest => skipExponent rest
    | rest => .ok rest

/-! ## Whole values -/

mutual

/-- Passes over a value of any kind. Two steps for each character suffice. -/
def skipValue : Nat → List Char → Except Problem (List Char)
  | 0, _ => .error .truncated
  | n + 1, cs =>
    match skipSpace cs with
    | [] => .error .truncated
    | 'n' :: rest => word ['u', 'l', 'l'] rest
    | 't' :: rest => word ['r', 'u', 'e'] rest
    | 'f' :: rest => word ['a', 'l', 's', 'e'] rest
    | '"' :: rest => skipString (rest.length + 1) rest
    | '-' :: rest => skipNumber rest
    | '[' :: rest =>
      match skipSpace rest with
      | [] => .error .truncated
      | ']' :: rest => .ok rest
      | rest => skipItems n rest
    | '\x7b' :: rest =>
      match skipSpace rest with
      | [] => .error .truncated
      | '\x7d' :: rest => .ok rest
      | rest => skipMembers n rest
    | c :: rest => if isDigit c then skipNumber (c :: rest) else .error .malformed

/-- Passes over the items of an array, from an item on. -/
def skipItems : Nat → List Char → Except Problem (List Char)
  | 0, _ => .error .truncated
  | n + 1, cs => do
    let rest ← skipValue n cs
    match skipSpace rest with
    | [] => .error .truncated
    | ',' :: rest => skipItems n rest
    | ']' :: rest => .ok rest
    | _ => .error .malformed

/-- Passes over the members of an object, from a name on. -/
def skipMembers : Nat → List Char → Except Problem (List Char)
  | 0, _ => .error .truncated
  | n + 1, cs => do
    match skipSpace cs with
    | [] => .error .truncated
    | '"' :: rest =>
      let rest ← skipString (rest.length + 1) rest
      match skipSpace rest with
      | [] => .error .truncated
      | ':' :: rest =>
        let rest ← skipValue n rest
        match skipSpace rest with
        | [] => .error .truncated
        | ',' :: rest => skipMembers n rest
        | '\x7d' :: rest => .ok rest
        | _ => .error .malformed
      | _ => .error .malformed
    | _ => .error .malformed

end

/-- Passes over a value of any kind. -/
def skip (cs : List Char) : Except Problem (List Char) := skipValue (2 * cs.length + 2) cs

/-- The first problem where a value of another kind was expected: one in the value itself, as far
as its kind makes it read, or else its kind. -/
def unexpected (cs : List Char) : Problem :=
  let seen : Except Problem Unit := match cs with
    | 'n' :: rest => (word ['u', 'l', 'l'] rest).map fun _ => ()
    | 't' :: rest => (word ['r', 'u', 'e'] rest).map fun _ => ()
    | 'f' :: rest => (word ['a', 'l', 's', 'e'] rest).map fun _ => ()
    | '"' :: rest => (string rest).map fun _ => ()
    | '[' :: _ => .ok ()
    | '\x7b' :: _ => .ok ()
    | c :: _ => if c = '-' ∨ isDigit c then (number cs).map fun _ => () else .error .malformed
    | [] => .error .truncated
  match seen with
  | .ok _ => .mistyped
  | .error p => p

/-! ## Expected kinds -/

def expectBool (cs : List Char) : Except Problem (Bool × List Char) :=
  match skipSpace cs with
  | 't' :: rest => (word ['r', 'u', 'e'] rest).map fun r => (true, r)
  | 'f' :: rest => (word ['a', 'l', 's', 'e'] rest).map fun r => (false, r)
  | rest => .error (unexpected rest)

def expectNull (cs : List Char) : Except Problem (List Char) :=
  match skipSpace cs with
  | 'n' :: rest => word ['u', 'l', 'l'] rest
  | rest => .error (unexpected rest)

/-- A natural number below `bound`. -/
def expectNat (bound : Nat) (cs : List Char) : Except Problem (Nat × List Char) := do
  let cs := skipSpace cs
  match cs with
  | c :: _ =>
    if c = '-' ∨ isDigit c then
      match ← number cs with
      | (.natural n, rest) => if n < bound then .ok (n, rest) else .error .mistyped
      | (.other, _) => .error .mistyped
    else .error (unexpected cs)
  | [] => .error .truncated

def expectString (cs : List Char) : Except Problem (String × List Char) :=
  match skipSpace cs with
  | '"' :: rest => string rest
  | rest => .error (unexpected rest)

/-- The name of a member of an object. Nothing but a string can stand there. -/
def expectName (cs : List Char) : Except Problem (String × List Char) :=
  match skipSpace cs with
  | [] => .error .truncated
  | '"' :: rest => string rest
  | _ => .error .malformed

def expectColon (cs : List Char) : Except Problem (List Char) :=
  match skipSpace cs with
  | [] => .error .truncated
  | ':' :: rest => .ok rest
  | _ => .error .malformed

/-- Behind the one member of an object that stands for `a`. -/
def closeObject {α : Type} (a : α) (cs : List Char) : Except Problem (α × List Char) :=
  match skipSpace cs with
  | [] => .error .truncated
  | '\x7d' :: rest => .ok (a, rest)
  | _ => .error .malformed

/-- Reads a whole text: behind the value only white space may follow. -/
def readAll {α : Type} (scan : List Char → Except Problem (α × List Char)) (s : String) :
    Except Problem α := do
  let (a, rest) ← scan s.toList
  if skipSpace rest = [] then .ok a else .error .malformed

end HotLoop.Json
