import SpectralAlgebra.Operator
import SpectralAlgebra.OrderedMap
import SpectralAlgebra.Site

/-!
# Evaluators

An evaluator turns parameter values and an energy grid into one value per bin. Convolutions also
take the flux they act on, and norm convolutions a source that gives that flux on other grids. The
number type is left open; nothing is asked of it but `+` and `*`.
-/

namespace SpectralAlgebra

abbrev Params (V : Type) := OrderedMap String V

/-- The parameter values of every component, by the component's name. -/
abbrev ParamValues (V : Type) := OrderedMap String (Params V)

inductive EvaluationError where
  | missingParameters (component : String)
  | missingParameter (component parameter : String)
  | missingFlux (convolution : String)
  | missingFluxSource (convolution : String)
  | binCount (component : String) (edges expected actual : Nat)
  | shapeMismatch (left right : Nat)
  | unmappedComponent (component : String)
  | degenerateGrid (edges : Nat)
  | site (e : SiteError)
  deriving DecidableEq

def EvaluationError.message : EvaluationError → String
  | missingParameters component =>
    s!"no parameter values supplied for component '{component}'"
  | missingParameter component parameter =>
    s!"component '{component}' has no value for parameter '{parameter}'"
  | missingFlux convolution => s!"convolution '{convolution}' needs an input flux"
  | missingFluxSource convolution => s!"norm convolution '{convolution}' needs a flux evaluator"
  | binCount component edges expected actual =>
    s!"component '{component}' returned {actual} values for {edges} grid edges, "
      ++ s!"expected {expected}"
  | shapeMismatch left right => s!"cannot combine arrays of {left} and {right} bins"
  | unmappedComponent component => s!"component '{component}' has no entry in the label mapping"
  | degenerateGrid edges => s!"energy grid needs at least two edges, got {edges}"
  | site e => e.message

abbrev Outcome := Except EvaluationError

abbrev FluxSource (V : Type) := ParamValues V → List V → Outcome (List V)

/-- What an evaluator does with parameter values, a grid, an input flux and a flux source. -/
abbrev Evaluation (V : Type) :=
  ParamValues V → List V → Option (List V) → Option (FluxSource V) → Outcome (List V)

structure Evaluator (V : Type) where
  name : String
  call : Evaluation V

namespace Evaluator

variable {V : Type}

def renamed (ev : Evaluator V) (name : String) : Evaluator V := { ev with name }

/-- Evaluates without input flux; this makes an evaluator a flux source. -/
def eval (ev : Evaluator V) : FluxSource V := fun params grid => ev.call params grid none none

def debug (ev : Evaluator V) : String := "Evaluator(" ++ ev.name ++ ")"

end Evaluator

def binCount {V : Type} (grid : List V) : Nat := grid.length - 1

end SpectralAlgebra
