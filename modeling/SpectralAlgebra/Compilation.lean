import SpectralAlgebra.Bins
import SpectralAlgebra.LabelSpace

/-!
# From models to evaluators

A leaf's function is made once its component's name is known, and wrapped so that it can be called
like any other: its parameters are looked up, and its values counted. A composite combines the
evaluators of its operands as its shape says, so nothing is decided by kind while evaluating.
-/

namespace SpectralAlgebra

structure CompileOptions where
  /-- Whether every leaf is checked to return one value per bin. -/
  checkShapes : Bool := true
  /-- The smallest batch evaluated in parallel; the answers do not depend on it. -/
  parallelBatchThreshold : Nat := 16
  deriving DecidableEq, Inhabited

variable {V : Type}

/-- The parameter values of a component, which have to cover the declared names. A component that
declares none may be left out. -/
def lookupParams (component : String) (declared : List String) (params : ParamValues V) :
    Outcome (Params V) :=
  match params.get? component with
  | none => if declared.isEmpty then .ok ∅ else .error (.missingParameters component)
  | some values =>
    match declared.find? (!values.contains ·) with
    | some name => .error (.missingParameter component name)
    | none => .ok values

/-- One value per bin, if the check is asked for. -/
def checkBins (check : Bool) (component : String) (grid values : List V) : Outcome (List V) :=
  if check ∧ values.length ≠ binCount grid then
    .error (.binCount component grid.length (binCount grid) values.length)
  else .ok values

def needFlux (convolution : String) : Option (List V) → Outcome (List V)
  | some flux => .ok flux
  | none => .error (.missingFlux convolution)

def needSource {S : Type} (convolution : String) : Option S → Outcome S
  | some source => .ok source
  | none => .error (.missingFluxSource convolution)

def leafEvaluation (check : Bool) (component : String) (d : ModelData V) : Evaluation V :=
  let declared := d.parameters.keys
  match d.generator with
  | .additive make | .multiplicative make =>
    let f := make component
    fun params grid _ _ => do
      let own ← lookupParams component declared params
      checkBins check component grid (f grid own)
  | .fluxConvolution make =>
    let f := make component
    fun params grid flux? _ => do
      let own ← lookupParams component declared params
      let flux ← needFlux component flux?
      checkBins check component grid (f grid flux own)
  | .normConvolution make =>
    let f := make component
    fun params grid flux? source? => do
      let own ← lookupParams component declared params
      let flux ← needFlux component flux?
      let source ← needSource component source?
      let values ← f (source params) grid flux own
      checkBins check component grid values

def Shape.evaluation [Add V] [Mul V] (shape : Shape) (label : String) (m₁ m₂ : Evaluator V) :
    Evaluation V :=
  match shape with
  | .addAdd => fun params grid _ _ => do
    let xs ← m₁.eval params grid
    let ys ← m₂.eval params grid
    Bins.combine .add xs ys
  | .product => fun params grid _ _ => do
    let xs ← m₁.eval params grid
    let ys ← m₂.eval params grid
    Bins.combine .mul xs ys
  | .mulFlux => fun params grid flux? _ => do
    let xs ← m₁.eval params grid
    let ys ← m₂.call params grid flux? none
    Bins.combine .mul xs ys
  | .mulNorm => fun params grid flux? source? => do
    let xs ← m₁.eval params grid
    let ys ← m₂.call params grid flux? source?
    Bins.combine .mul xs ys
  | .fluxAdd => fun params grid _ _ => do
    let flux ← m₂.eval params grid
    m₁.call params grid (some flux) none
  | .fluxMul => fun params grid flux? _ => do
    let xs ← m₂.eval params grid
    let ys ← needFlux label flux?
    let flux ← Bins.combine .mul xs ys
    m₁.call params grid (some flux) none
  | .fluxFlux => fun params grid flux? _ => do
    let flux ← m₂.call params grid flux? none
    m₁.call params grid (some flux) none
  | .fluxNorm => fun params grid flux? source? => do
    let flux ← m₂.call params grid flux? source?
    m₁.call params grid (some flux) none
  | .normAdd => fun params grid _ _ => do
    let flux ← m₂.eval params grid
    m₁.call params grid (some flux) (some m₂.eval)
  | .normMul => fun params grid flux? source? => do
    let xs ← m₂.eval params grid
    let ys ← needFlux label flux?
    let flux ← Bins.combine .mul xs ys
    let source ← needSource label source?
    let chained : FluxSource V := fun params grid => do
      let xs ← m₂.eval params grid
      let ys ← source params grid
      Bins.combine .mul xs ys
    m₁.call params grid (some flux) (some chained)
  | .normFlux => fun params grid flux? source? => do
    let source ← needSource label source?
    let flux ← m₂.call params grid flux? none
    let chained : FluxSource V := fun params grid => do
      let inner ← source params grid
      m₂.call params grid (some inner) none
    m₁.call params grid (some flux) (some chained)

namespace Model

/-- The evaluator of a model, whose leaves are known by what the mapping says for their tagged
names. -/
def compile [Add V] [Mul V] (mapping : OrderedMap String String) (options : CompileOptions) :
    Model V → Outcome (Evaluator V)
  | .leaf l =>
    match mapping.get? l.taggedName with
    | none => .error (.unmappedComponent l.taggedName)
    | some component => .ok ⟨component, leafEvaluation options.checkShapes component l.data⟩
  | .op id o r lh rh => do
    let m₁ ← compile mapping options lh
    let m₂ ← compile mapping options rh
    let label := substitute (Expr.op id o r lh rh).name mapping
    .ok ⟨label, r.shape.evaluation label m₁ m₂⟩

def generate [Add V] [Mul V] (mapping : OrderedMap String String) (m : Model V) :
    Outcome (Evaluator V) :=
  compile mapping {} m

/-- The entries that report a compilation, up to the first leaf that is not in the mapping, and the
name of the evaluator if there is no such leaf. -/
def report (mapping : OrderedMap String String) : Model V → List Log.Entry × Option String
  | .leaf l =>
    match mapping.get? l.taggedName with
    | none => ([], none)
    | some component =>
      ([⟨.trace, s!"generating {l.data.kind.text} evaluator '{component}'"⟩], some component)
  | .op id o r lh rh =>
    match report mapping lh with
    | (left, none) => (left, none)
    | (left, some first) =>
      match report mapping rh with
      | (right, none) => (left ++ right, none)
      | (right, some second) =>
        let label := substitute (Expr.op id o r lh rh).name mapping
        (left ++ right ++ [⟨.trace, s!"generating '{label}' as {r.shape.label} from '{first}' "
          ++ s!"and '{second}'"⟩], some label)

end Model

end SpectralAlgebra
