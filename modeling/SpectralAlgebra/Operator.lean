/-!
# The two operators

Parameters and models are combined by `+` and `*`. The number type is left open: whatever has an
addition and a multiplication can be combined.
-/

namespace SpectralAlgebra

inductive Operator where
  | add
  | mul
  deriving DecidableEq, Inhabited

namespace Operator

def symbol : Operator → String
  | add => "+"
  | mul => "*"

def tex : Operator → String
  | add => "+"
  | mul => "\\times"

def apply {V : Type} [Add V] [Mul V] : Operator → V → V → V
  | add, x, y => x + y
  | mul, x, y => x * y

end Operator

end SpectralAlgebra
