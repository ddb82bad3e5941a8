/-!
# Handles

A handle names one compiled loop or bridge.
-/

namespace HotLoop

structure Handle where
  number : Nat
  deriving DecidableEq

instance : ToString Handle where
  toString h := "<token #" ++ toString h.number ++ ">"

end HotLoop
