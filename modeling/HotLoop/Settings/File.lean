import HotLoop.Settings.Basic

/-!
# Settings in JSON

Settings are an object with the fields of `Settings` in any order, or an array of their values in
the order of declaration. What is missing has its default; members of other names are passed over,
but must be well-formed. A member that comes twice is refused.
-/

namespace HotLoop.Settings

inductive Field where
  | enabled
  | threshold
  | traceEagerness
  | traceLimit
  | foldFields
  deriving DecidableEq

namespace Field

/-- In the order of declaration. -/
def all : List Field := [enabled, threshold, traceEagerness, traceLimit, foldFields]

def name : Field → String
  | enabled => "enabled"
  | threshold => "threshold"
  | traceEagerness => "trace_eagerness"
  | traceLimit => "trace_limit"
  | foldFields => "enable_quasi_immut"

def ofName? (s : String) : Option Field := all.find? fun f => f.name == s

/-- Scans a value for the field and sets it. -/
def scan (f : Field) (s : Settings) (cs : List Char) :
    Except Json.Problem (Settings × List Char) := do
  match f with
  | enabled =>
    let (b, rest) ← Json.expectBool cs
    return ({ s with enabled := b }, rest)
  | threshold =>
    let (n, rest) ← Json.expectNat 0x100000000 cs
    return ({ s with threshold := n }, rest)
  | traceEagerness =>
    let (n, rest) ← Json.expectNat 0x100000000 cs
    return ({ s with traceEagerness := n }, rest)
  | traceLimit =>
    let (n, rest) ← Json.expectNat 0x10000000000000000 cs
    return ({ s with traceLimit := n }, rest)
  | foldFields =>
    let (b, rest) ← Json.expectBool cs
    return ({ s with foldFields := b }, rest)

end Field

/-- Scans one member behind the quote of its name. Returns the settings, the fields met so far and
the rest. -/
def scanMember (s : Settings) (seen : List Field) (cs : List Char) :
    Except Json.Problem (Settings × List Field × List Char) := do
  let (name, rest) ← Json.string cs
  match Field.ofName? name with
  | none =>
    let rest ← Json.expectColon rest
    let rest ← Json.skip rest
    return (s, seen, rest)
  | some f =>
    if f ∈ seen then throw .mistyped
    let rest ← Json.expectColon rest
    let (s, rest) ← f.scan s rest
    return (s, f :: seen, rest)

/-- Scans members up to the closing brace, from the quote of a name on; at most `n` of them. -/
def scanMembers : Nat → Settings → List Field → List Char →
    Except Json.Problem (Settings × List Char)
  | 0, _, _, _ => .error .truncated
  | n + 1, s, seen, cs => do
    match Json.skipSpace cs with
    | [] => throw .truncated
    | '"' :: rest =>
      let (s, seen, rest) ← scanMember s seen rest
      match Json.skipSpace rest with
      | [] => throw .truncated
      | ',' :: rest => scanMembers n s seen rest
      | '\x7d' :: rest => return (s, rest)
      | _ => throw .malformed
    | _ => throw .malformed

/-- Scans the values of the given fields up to the closing bracket; `first` says whether no value
stands before. -/
def scanItems (first : Bool) (s : Settings) : List Field → List Char →
    Except Json.Problem (Settings × List Char)
  | [], cs =>
    match Json.skipSpace cs with
    | [] => .error .truncated
    | ']' :: rest => .ok (s, rest)
    | _ => .error .malformed
  | f :: fs, cs => do
    match Json.skipSpace cs with
    | [] => throw .truncated
    | ']' :: rest => return (s, rest)
    | ',' :: rest =>
      if first then throw .malformed
      match Json.skipSpace rest with
      | [] => throw .truncated
      | ']' :: _ => throw .malformed
      | rest =>
        let (s, rest) ← f.scan s rest
        scanItems false s fs rest
    | c :: rest =>
      if first = false then throw .malformed
      let (s, rest) ← f.scan s (c :: rest)
      scanItems false s fs rest

def scan (cs : List Char) : Except Json.Problem (Settings × List Char) :=
  match Json.skipSpace cs with
  | [] => .error .truncated
  | '[' :: rest => scanItems true {} Field.all rest
  | '\x7b' :: rest =>
    match Json.skipSpace rest with
    | '\x7d' :: rest => .ok ({}, rest)
    | rest => scanMembers (rest.length + 1) {} [] rest
  | rest => .error (Json.unexpected rest)

/-- Reads settings in JSON and validates them. -/
def ofJson (text : String) : Except Error Settings :=
  match Json.readAll scan text with
  | .error p => .error (.json p)
  | .ok s => s.validate.map fun _ => s

/-- Reads the bytes of a file, unless there was a problem with it. -/
def ofFile (bytes : Except FileProblem ByteArray) : Except Error Settings :=
  match bytes with
  | .error p => .error (.file p)
  | .ok b =>
    match String.fromUTF8? b with
    | some text => ofJson text
    | none => .error (.file .notText)

end HotLoop.Settings
