import SpectralAlgebra.Decimal.Plain

/-!
# Prior distributions

Only the description of a distribution is kept: its name, its parameters and its support. Drawing
samples is left to whoever reads the sites. The five known families check their parameters when
they are made; a distribution made elsewhere is known by its name and support alone.
-/

namespace SpectralAlgebra

inductive Support where
  | real
  | positive
  | nonNegative
  | interval (low high : Float)
  deriving Inhabited

namespace Support

/-- A support holds finite numbers only, whatever its bounds. -/
def contains (s : Support) (x : Float) : Bool :=
  x.isFinite && match s with
    | real => true
    | positive => x > 0
    | nonNegative => x ≥ 0
    | interval low high => low ≤ x && x ≤ high

def text : Support → String
  | real => "(-inf, inf)"
  | positive => "(0, inf)"
  | nonNegative => "[0, inf)"
  | interval low high => s!"[{Decimal.ofFloat low}, {Decimal.ofFloat high}]"

end Support

inductive Requirement where
  | finite
  | positive
  deriving DecidableEq, Inhabited

namespace Requirement

def text : Requirement → String
  | finite => "finite"
  | positive => "positive and finite"

def holds (r : Requirement) (x : Float) : Bool :=
  match r with
  | finite => x.isFinite
  | positive => x.isFinite && x > 0

end Requirement

inductive DistributionError where
  | invalidParameter (distribution parameter : String) (requirement : Requirement) (value : Float)
  | emptyInterval (distribution : String) (low high : Float)

def DistributionError.message : DistributionError → String
  | invalidParameter distribution parameter requirement value =>
    s!"{distribution}: `{parameter}` must be {requirement.text}, got {Decimal.ofFloat value}"
  | emptyInterval distribution low high =>
    s!"{distribution}: lower bound {Decimal.ofFloat low} must be below upper bound "
      ++ Decimal.ofFloat high

def Requirement.check (r : Requirement) (distribution parameter : String) (x : Float) :
    Except DistributionError Unit :=
  if r.holds x then .ok () else .error (.invalidParameter distribution parameter r x)

inductive Distribution where
  | uniform (low high : Float)
  /-- Uniform in the logarithm between two positive bounds. -/
  | logUniform (low high : Float)
  | normal (loc scale : Float)
  | logNormal (loc scale : Float)
  | halfNormal (scale : Float)
  | custom (name : String) (support : Support)
  deriving Inhabited

namespace Distribution

def name : Distribution → String
  | uniform .. => "Uniform"
  | logUniform .. => "LogUniform"
  | normal .. => "Normal"
  | logNormal .. => "LogNormal"
  | halfNormal .. => "HalfNormal"
  | custom name _ => name

def support : Distribution → Support
  | uniform low high => .interval low high
  | logUniform low high => .interval low high
  | normal .. => .real
  | logNormal .. => .positive
  | halfNormal .. => .positive
  | custom _ support => support

def produces (d : Distribution) (x : Float) : Bool := d.support.contains x

def checkBounds (distribution : String) (low high : Float) : Except DistributionError Unit := do
  Requirement.finite.check distribution "low" low
  Requirement.finite.check distribution "high" high
  if low < high then .ok () else .error (.emptyInterval distribution low high)

def uniform? (low high : Float) : Except DistributionError Distribution := do
  checkBounds "Uniform" low high
  .ok (uniform low high)

def logUniform? (low high : Float) : Except DistributionError Distribution := do
  Requirement.positive.check "LogUniform" "low" low
  checkBounds "LogUniform" low high
  .ok (logUniform low high)

def normal? (loc scale : Float) : Except DistributionError Distribution := do
  Requirement.finite.check "Normal" "loc" loc
  Requirement.positive.check "Normal" "scale" scale
  .ok (normal loc scale)

def logNormal? (loc scale : Float) : Except DistributionError Distribution := do
  Requirement.finite.check "LogNormal" "loc" loc
  Requirement.positive.check "LogNormal" "scale" scale
  .ok (logNormal loc scale)

def halfNormal? (scale : Float) : Except DistributionError Distribution := do
  Requirement.positive.check "HalfNormal" "scale" scale
  .ok (halfNormal scale)

end Distribution

/-- What is known of a parameter's value beforehand: a distribution, or the value itself. -/
inductive Prior where
  | fixed (value : Float)
  | distribution (d : Distribution)
  deriving Inhabited

def Prior.fixedValue? : Prior → Option Float
  | fixed value => some value
  | distribution _ => none

end SpectralAlgebra
