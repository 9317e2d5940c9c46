import SpectralAlgebra.Composition
import SpectralAlgebra.Evaluation
import SpectralAlgebra.Parameter

/-!
# Models

A model leaf declares its kind, its parameters and a generator, which makes its numeric function
once the component's final name is known. Composites are resolved when they are made, so a
combination that the algebra forbids is never a model.
-/

namespace SpectralAlgebra

abbrev EnergyFn (V : Type) := List V → Params V → List V

abbrev FluxFn (V : Type) := List V → List V → Params V → List V

/-- A function that may also ask for the flux of what it is applied to on any grid. -/
abbrev NormFn (V : Type) :=
  (List V → Outcome (List V)) → List V → List V → Params V → Outcome (List V)

/-- Makes a leaf's function from the component's name; it is known by the kind of function that it
makes. -/
inductive Generator (V : Type) where
  | additive (make : String → EnergyFn V)
  | multiplicative (make : String → EnergyFn V)
  | fluxConvolution (make : String → FluxFn V)
  | normConvolution (make : String → NormFn V)

namespace Generator

variable {V : Type}

def kind : Generator V → ModelKind
  | additive _ => .additive
  | multiplicative _ => .multiplicative
  | fluxConvolution _ => .convolution .flux
  | normConvolution _ => .convolution .norm

def debug (g : Generator V) : String := "Generator(" ++ g.kind.text ++ ")"

end Generator

inductive ModelError where
  | generatorKindMismatch (name : String) (declared generator : ModelKind)
  | duplicateParameter (name parameter : String)
  | node (e : NodeError)
  deriving DecidableEq

def ModelError.message : ModelError → String
  | generatorKindMismatch name declared generator =>
    s!"model '{name}' is declared {declared.text} but its generator builds {generator.text} "
      ++ "functions"
  | duplicateParameter name parameter =>
    s!"model '{name}' got parameter '{parameter}' more than once"
  | node e => e.message

structure ModelData (V : Type) where
  kind : ModelKind
  parameters : OrderedMap String Parameter
  generator : Generator V

abbrev Model (V : Type) := Expr (ModelData V) Resolution

namespace Model

variable {V : Type}

/-- Collects declared parameters, refusing the first name that is already there. -/
def declare (model : String) :
    List (String × Parameter) → OrderedMap String Parameter →
      Except ModelError (OrderedMap String Parameter)
  | [], declared => .ok declared
  | (name, p) :: rest, declared =>
    if declared.contains name then .error (.duplicateParameter model name)
    else declare model rest (declared.insert name p)

/-- A leaf with the given identity, once its kind is found to be its generator's, its parameter
names to differ and its attributes to be in order. -/
def make (id : NodeId) (name formula : String) (kind : ModelKind)
    (parameters : List (String × Parameter)) (generator : Generator V) (attributes : Attributes) :
    Except ModelError (Model V) := do
  if generator.kind ≠ kind then .error (.generatorKindMismatch name kind generator.kind)
  let declared ← declare name parameters ∅
  (checkAttributes attributes).mapError .node
  .ok (.leaf ⟨id, name, formula, attributes, ⟨kind, declared, generator⟩⟩)

def kind : Model V → ModelKind
  | .leaf l => l.data.kind
  | .op _ _ r _ _ => r.kind

def combine (id : NodeId) (o : Operator) (lh rh : Model V) :
    Except CompositionError (Model V) :=
  match Resolution.infer o lh.kind rh.kind with
  | .ok r => .ok (.op id o r lh rh)
  | .error reason => .error (.illegalKinds o lh.plainName lh.kind rh.plainName rh.kind reason)

/-- The operator in a label. In formulas a convolution leaf reads as a function applied to what
follows and not as a factor. -/
def sign (kind : LabelKind) (o : Operator) (lh : Model V) : String :=
  match kind with
  | .name => o.symbol
  | .formula =>
    if o = .mul ∧ lh.isOperation = false ∧ lh.kind.isConvolution then "*" else o.tex

/-- The tagged names of the leaves from left to right, repeated where they are shared. -/
def components (m : Model V) : List String := m.leaves.map Leaf.taggedName

def parameters : Model V → OrderedMap String (OrderedMap String Parameter)
  | .leaf l => OrderedMap.singleton l.taggedName l.data.parameters
  | .op _ _ _ lh rh => (parameters lh).merge (parameters rh)

def site : Model V → Site
  | .leaf l => l.data.parameters.values.foldl (fun s p => s.merge (Parameter.site p)) ∅
  | .op _ _ _ lh rh => (site lh).merge (site rh)

def debug (m : Model V) : String := "Model(" ++ m.plainName ++ ": " ++ m.kind.text ++ ")"

end Model

end SpectralAlgebra
