import HotLoop.Handle

/-!
# Phases of a site

A site is compiled by one attempt at a time. An attempt ends in a loop, which may gain bridges and
is retired in the end, or is aborted.
-/

namespace HotLoop.Lifecycle

inductive Phase where
  | untouched
  | compiling
  | aborted
  | compiled (loop : Handle)
  | bridged (loop : Handle) (bridges : Nat)
  | retired (loop : Handle)
  deriving DecidableEq

namespace Phase

def liveLoop? : Phase → Option Handle
  | .compiled h => some h
  | .bridged h _ => some h
  | _ => none

/-- The phase as it stands in messages. -/
def describe : Phase → String
  | .untouched => "NoArtifact"
  | .compiling => "Compiling"
  | .aborted => "Aborted"
  | .compiled h => "Compiled \x7b artifact: ArtifactHandle(" ++ toString h.number ++ ") \x7d"
  | .bridged h n =>
    "Bridged \x7b artifact: ArtifactHandle(" ++ toString h.number ++ "), bridges: " ++ toString n
      ++ " \x7d"
  | .retired h => "Retired \x7b artifact: ArtifactHandle(" ++ toString h.number ++ ") \x7d"

end Phase

/-- The three kinds of notices that observers receive. -/
inductive Hook where
  | abort
  | compile
  | bridge
  deriving DecidableEq

instance : ToString Hook where
  toString
    | .abort => "abort"
    | .compile => "compile"
    | .bridge => "bridge"

end HotLoop.Lifecycle
