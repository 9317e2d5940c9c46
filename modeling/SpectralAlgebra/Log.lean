/-!
# Log entries

An entry is kept if the session's level admits the entry's level at the time it arises.
-/

namespace SpectralAlgebra.Log

/-- How much is kept, from nothing to everything. -/
inductive Level where
  | off
  | warn
  | debug
  | trace
  deriving DecidableEq, Inhabited

namespace Level

def rank : Level → Nat
  | off => 0
  | warn => 1
  | debug => 2
  | trace => 3

def admits (threshold level : Level) : Bool := level.rank ≤ threshold.rank

def text : Level → String
  | off => "OFF"
  | warn => "WARN"
  | debug => "DEBUG"
  | trace => "TRACE"

end Level

structure Entry where
  level : Level
  text : String
  deriving DecidableEq

end SpectralAlgebra.Log
