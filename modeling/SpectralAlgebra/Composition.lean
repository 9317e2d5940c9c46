import SpectralAlgebra.Kind
import SpectralAlgebra.Operator

/-!
# Which models combine, and into what

Additive models are independent emissions and can only be summed. Multiplicative models and
convolutions are transforms, applied with `*` to an additive base, directly or through other
transforms. A norm convolution takes the integrated flux and the evaluator of what it is applied
to, so two of them do not combine into a transform.
-/

namespace SpectralAlgebra

/-- How a composite passes the grid, the flux and the flux source on to its two operands. It is
named after the kinds of the operands. -/
inductive Shape where
  | addAdd
  | product
  | mulFlux
  | mulNorm
  | fluxAdd
  | fluxMul
  | fluxFlux
  | fluxNorm
  | normAdd
  | normMul
  | normFlux
  deriving DecidableEq, Inhabited

namespace Shape

def all : List Shape :=
  [addAdd, product, mulFlux, mulNorm, fluxAdd, fluxMul, fluxFlux, fluxNorm, normAdd, normMul,
    normFlux]

def label : Shape → String
  | addAdd => "add + add"
  | product => "mul * mul"
  | mulFlux => "mul * con"
  | mulNorm => "mul * ncon"
  | fluxAdd => "con * add"
  | fluxMul => "con * mul"
  | fluxFlux => "con * con"
  | fluxNorm => "con * ncon"
  | normAdd => "ncon * add"
  | normMul => "ncon * mul"
  | normFlux => "ncon * con"

def identifier : Shape → String
  | addAdd => "AddAdd"
  | product => "Product"
  | mulFlux => "MulFluxConv"
  | mulNorm => "MulNormConv"
  | fluxAdd => "FluxConvAdd"
  | fluxMul => "FluxConvMul"
  | fluxFlux => "FluxConvFluxConv"
  | fluxNorm => "FluxConvNormConv"
  | normAdd => "NormConvAdd"
  | normMul => "NormConvMul"
  | normFlux => "NormConvFluxConv"

end Shape

structure Resolution where
  kind : ModelKind
  shape : Shape
  deriving DecidableEq, Inhabited

def Resolution.debug (r : Resolution) : String :=
  "Resolution \x7b kind: " ++ r.kind.identifier ++ ", shape: " ++ r.shape.identifier ++ " \x7d"

inductive Side where
  | left
  | right
  deriving DecidableEq, Inhabited

inductive Rejection where
  | notAdditive (side : Side)
  | additiveProduct
  | wrongOrder
  | doubleNormConvolution
  deriving DecidableEq, Inhabited

def Rejection.message : Rejection → String
  | notAdditive _ => "only additive models can be summed"
  | additiveProduct => "additive models cannot be multiplied together"
  | wrongOrder => "a convolution must be applied from the left"
  | doubleNormConvolution => "norm convolution can only be used once for one component"

open ModelKind in
/-- The kind and shape of a composition of models of two kinds, or the rule against it. -/
def Resolution.infer : Operator → ModelKind → ModelKind → Except Rejection Resolution
  | .add, additive, additive => .ok ⟨additive, .addAdd⟩
  | .add, additive, _ => .error (.notAdditive .right)
  | .add, _, _ => .error (.notAdditive .left)
  | .mul, additive, additive => .error .additiveProduct
  | .mul, additive, convolution _ => .error .wrongOrder
  | .mul, convolution .norm, convolution .norm => .error .doubleNormConvolution
  | .mul, additive, multiplicative => .ok ⟨additive, .product⟩
  | .mul, multiplicative, additive => .ok ⟨additive, .product⟩
  | .mul, multiplicative, multiplicative => .ok ⟨multiplicative, .product⟩
  | .mul, multiplicative, convolution .flux => .ok ⟨convolution .flux, .mulFlux⟩
  | .mul, multiplicative, convolution .norm => .ok ⟨convolution .norm, .mulNorm⟩
  | .mul, convolution .flux, additive => .ok ⟨additive, .fluxAdd⟩
  | .mul, convolution .flux, multiplicative => .ok ⟨convolution .flux, .fluxMul⟩
  | .mul, convolution .flux, convolution .flux => .ok ⟨convolution .flux, .fluxFlux⟩
  | .mul, convolution .flux, convolution .norm => .ok ⟨convolution .norm, .fluxNorm⟩
  | .mul, convolution .norm, additive => .ok ⟨additive, .normAdd⟩
  | .mul, convolution .norm, multiplicative => .ok ⟨convolution .norm, .normMul⟩
  | .mul, convolution .norm, convolution .flux => .ok ⟨convolution .norm, .normFlux⟩

inductive CompositionError where
  /-- The operands belong to different families; the right one is at fault, being applied to an
  expression that is already there. -/
  | familyMismatch (op : Operator) (lh : String) (lhFamily : Family) (rh : String)
      (rhFamily : Family)
  | illegalKinds (op : Operator) (lh : String) (lhKind : ModelKind) (rh : String)
      (rhKind : ModelKind) (reason : Rejection)
  deriving DecidableEq

namespace CompositionError

def message : CompositionError → String
  | familyMismatch op lh lhFamily rh rhFamily =>
    s!"unsupported types for {op.symbol}: {lh} ({lhFamily.text}) and {rh} ({rhFamily.text}); "
      ++ s!"offending operand is {rh}"
  | illegalKinds op lh lhKind rh rhKind reason =>
    s!"unsupported kinds for {op.symbol}: {lh} ({lhKind.text}) and {rh} ({rhKind.text}): "
      ++ reason.message

/-- The rule of the algebra that was broken, if one was. -/
def rejection? : CompositionError → Option Rejection
  | familyMismatch .. => none
  | illegalKinds _ _ _ _ _ reason => some reason

end CompositionError

end SpectralAlgebra
