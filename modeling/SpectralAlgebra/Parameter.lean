import SpectralAlgebra.Distribution
import SpectralAlgebra.Expr
import SpectralAlgebra.Site
import SpectralAlgebra.Text.Pieces

/-!
# Parameters

A parameter leaf has a default value, checked against its prior when it is made and whenever the
default is set, and may declare one derived quantity. The default of a composite is computed from
the defaults of its operands, and its site tells how to rebuild its value from the sampled leaves.
-/

namespace SpectralAlgebra

inductive TemplateFault where
  | arity
  | placeholderCount
  | otherPlaceholder
  deriving DecidableEq, Inhabited

def TemplateFault.text : TemplateFault → String
  | arity => "a derived quantity depends on exactly one parameter"
  | placeholderCount => "template must contain exactly one `\x7bname\x7d` placeholder"
  | otherPlaceholder => "template contains a placeholder other than `\x7bname\x7d`"

inductive ParameterError where
  | outsideSupport (name : String) (default : Float) (prior : String) (support : Support)
  | fixedMismatch (name : String) (default value : Float)
  | nonFiniteDefault (name : String) (default : Float)
  | malformedTemplate (template : String) (fault : TemplateFault)
  | distribution (e : DistributionError)
  | node (e : NodeError)

def ParameterError.message : ParameterError → String
  | outsideSupport name default prior support =>
    s!"default value {Decimal.ofFloat default} of '{name}' is outside the support {support.text} "
      ++ s!"of {prior}"
  | fixedMismatch name default value =>
    s!"default value {Decimal.ofFloat default} of '{name}' must equal its fixed value "
      ++ Decimal.ofFloat value
  | nonFiniteDefault name default =>
    s!"default value of '{name}' must be finite, got {Decimal.ofFloat default}"
  | malformedTemplate template fault =>
    s!"malformed deterministic site '{template}': {fault.text}"
  | distribution e => e.message
  | node e => e.message

def Prior.check (prior : Prior) (name : String) (default : Float) : Except ParameterError Unit :=
  if !default.isFinite then .error (.nonFiniteDefault name default)
  else match prior with
    | fixed value => if default == value then .ok () else .error (.fixedMismatch name default value)
    | distribution d =>
      if d.produces default then .ok ()
      else .error (.outsideSupport name default d.name d.support)

/-- One quantity computed from a parameter. The template names its site, with the parameter's name
in place of the placeholder. -/
structure Derived where
  template : String
  combine : Combinator

namespace Derived

def placeholder : String := "\x7bname\x7d"

/-- The declaration of a quantity that depends on `arity` parameters; only one is allowed, and the
template has to have one placeholder and no other brace. -/
def make (template : String) (arity : Nat) (combine : Combinator) :
    Except ParameterError Derived :=
  if arity ≠ 1 then .error (.malformedTemplate template .arity)
  else if Text.occurrences placeholder template ≠ 1 then
    .error (.malformedTemplate template .placeholderCount)
  else if (Text.replaceAll placeholder "" template).toList.any fun c => c = '\x7b' || c = '\x7d'
  then .error (.malformedTemplate template .otherPlaceholder)
  else .ok ⟨template, combine⟩

def ofFunction (template : String) (f : Float → Float) : Except ParameterError Derived :=
  make template 1 fun arguments => f (arguments.headD (0 / 0))

def siteName (d : Derived) (name : String) : String :=
  Text.replaceAll placeholder name d.template

def debug (d : Derived) : String :=
  "Deterministic \x7b template: " ++ Text.quote d.template ++ ", .. \x7d"

end Derived

structure ParameterData where
  default : Float
  prior : Prior
  derived : Option Derived

abbrev Parameter := Expr ParameterData Unit

/-- An operator as a combinator of two values; of any other number of values it makes NaN. -/
def Operator.combinator (o : Operator) : Combinator
  | [x, y] => o.apply x y
  | _ => 0 / 0

namespace Parameter

/-- A leaf with the given identity, once its default and its attributes are found in order. -/
def make (id : NodeId) (name formula : String) (default : Float) (prior : Prior)
    (derived : Option Derived) (attributes : Attributes) : Except ParameterError Parameter := do
  prior.check name default
  (checkAttributes attributes).mapError .node
  .ok (.leaf ⟨id, name, formula, attributes, ⟨default, prior, derived⟩⟩)

def uniform (id : NodeId) (name formula : String) (default low high : Float) :
    Except ParameterError Parameter := do
  let d ← (Distribution.uniform? low high).mapError .distribution
  make id name formula default (.distribution d) none ∅

def fixed (id : NodeId) (name formula : String) (value : Float) :
    Except ParameterError Parameter :=
  make id name formula value (.fixed value) none ∅

/-- The parameter with the given identity that combines two others; there is always one. -/
def combine (id : NodeId) (o : Operator) (lh rh : Parameter) : Parameter := .op id o () lh rh

def sign (kind : LabelKind) (o : Operator) (_lh : Parameter) : String :=
  match kind with
  | .name => o.symbol
  | .formula => o.tex

def default (edits : Edits) : Parameter → Float
  | .leaf l => (edits.defaults.get? l.id).getD l.data.default
  | .op _ o _ lh rh => o.apply (default edits lh) (default edits rh)

/-- The sites of a parameter: its leaves, their derived quantities, and its composites. -/
def site : Parameter → Site
  | .leaf l =>
    let name := l.taggedName
    let derived := match l.data.derived with
      | none => ∅
      | some d => OrderedMap.singleton (d.siteName name) ⟨[name], d.combine⟩
    ⟨OrderedMap.singleton name l.data.prior, derived⟩
  | .op id o r lh rh =>
    ((site lh).merge (site rh)).addDeterministic (Expr.op id o r lh rh).name
      ⟨[lh.name, rh.name], o.combinator⟩

def debug (p : Parameter) : String := "Parameter(" ++ p.plainName ++ ")"

end Parameter

end SpectralAlgebra
