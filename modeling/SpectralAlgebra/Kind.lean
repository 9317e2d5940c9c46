/-!
# Families and kinds

A node is a parameter or a model. A model is additive (an emission), multiplicative (a factor), or
a convolution, which acts on the flux of what stands to its right: a flux convolution on its
values, a norm convolution also on the means to evaluate it on other grids.
-/

namespace SpectralAlgebra

/-- The two families of nodes; only members of one family combine. -/
inductive Family where
  | parameter
  | model
  deriving DecidableEq, Inhabited

def Family.text : Family → String
  | parameter => "parameter"
  | model => "model"

inductive ConvolutionKind where
  | flux
  | norm
  deriving DecidableEq, Inhabited

inductive ModelKind where
  | additive
  | multiplicative
  | convolution (kind : ConvolutionKind)
  deriving DecidableEq, Inhabited

namespace ModelKind

def text : ModelKind → String
  | additive => "add"
  | multiplicative => "mul"
  | convolution .flux => "con"
  | convolution .norm => "ncon"

def identifier : ModelKind → String
  | additive => "Additive"
  | multiplicative => "Multiplicative"
  | convolution .flux => "Convolution(Flux)"
  | convolution .norm => "Convolution(Norm)"

def isConvolution : ModelKind → Bool
  | convolution _ => true
  | _ => false

end ModelKind

end SpectralAlgebra
