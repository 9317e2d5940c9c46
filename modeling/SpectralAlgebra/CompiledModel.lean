import SpectralAlgebra.Compilation
import SpectralAlgebra.Site.Replay

/-!
# Compiled models

A model together with its evaluator and the label space that names its components. Parameter values
are keyed by the names under which the components are shown.
-/

namespace SpectralAlgebra

structure CompiledModel (V : Type) where
  model : Model V
  labels : LabelSpace V
  evaluator : Evaluator V
  options : CompileOptions

namespace CompiledModel

variable {V : Type}

def make [Add V] [Mul V] (edits : Edits) (model : Model V) (options : CompileOptions) :
    Outcome (CompiledModel V) := do
  let labels := LabelSpace.make edits (.model model)
  let evaluator ← Model.compile (labels.mapping edits .name) options model
  .ok { model, labels, evaluator, options }

def makeEntries (edits : Edits) (model : Model V) : List Log.Entry :=
  let mapping := (LabelSpace.make edits (.model model)).mapping edits .name
  match Model.report mapping model with
  | (entries, none) => entries
  | (entries, some name) =>
    entries ++ [⟨.debug, s!"compiled '{name}' ({mapping.size} components)"⟩]

def consult (edits : Edits) (kind : LabelKind) (c : CompiledModel V) : CompiledModel V :=
  { c with labels := c.labels.consult edits kind }

def name (edits : Edits) (c : CompiledModel V) : String := c.labels.label edits .name

def formula (edits : Edits) (c : CompiledModel V) : String := c.labels.label edits .formula

/-- The name under which a component is shown; a text that names none stands for itself. -/
def resolve (edits : Edits) (c : CompiledModel V) (tagged : String) : String :=
  (c.labels.resolve? edits .name tagged).getD tagged

def components (edits : Edits) (c : CompiledModel V) : List String :=
  (Model.components c.model).map (c.resolve edits)

/-- For every component something that is made of its parameters. -/
def reported {β : Type} (edits : Edits) (c : CompiledModel V)
    (F : OrderedMap String Parameter → β) : OrderedMap String β :=
  .ofList <| (Model.parameters c.model).entries.map fun e => (c.resolve edits e.1, F e.2)

/-- For every component its parameters, each with the name of the site that holds its value. -/
def parameters (edits : Edits) (c : CompiledModel V) :
    OrderedMap String (OrderedMap String String) :=
  c.reported edits fun ps => ps.mapValues fun p => p.name

def site (c : CompiledModel V) : Site := Model.site c.model

/-- The parameter values with a value for every parameter. -/
def valuesWith (edits : Edits) (value : Parameter → Float) (c : CompiledModel V) :
    ParamValues Float :=
  c.reported edits fun ps => ps.mapValues value

def defaults (edits : Edits) (c : CompiledModel V) : ParamValues Float :=
  c.valuesWith edits (Parameter.default edits)

def fillParameters (values : Site.Values) :
    List (String × String) → Params Float → Except SiteError (Params Float)
  | [], filled => .ok filled
  | (name, site) :: rest, filled =>
    match values.get? site with
    | none => .error (.missingValue site)
    | some x => fillParameters values rest (filled.insert name x)

def fillComponents (values : Site.Values) :
    List (String × OrderedMap String String) → ParamValues Float →
      Except SiteError (ParamValues Float)
  | [], filled => .ok filled
  | (component, ps) :: rest, filled => do
    let own ← fillParameters values ps.entries ∅
    fillComponents values rest (filled.insert component own)

/-- The parameter values that follow from values for the sample sites, composite parameters being
computed by replaying the sites. -/
def paramValues (edits : Edits) (c : CompiledModel V) (samples : Site.Values) :
    Except SiteError (ParamValues Float) := do
  let values ← c.site.replay samples
  fillComponents values (c.parameters edits).entries ∅

def evaluateWith (c : CompiledModel V) (params : ParamValues V) (grid : List V)
    (flux? : Option (List V)) (source? : Option (FluxSource V)) : Outcome (List V) :=
  if grid.length < 2 then .error (.degenerateGrid grid.length)
  else c.evaluator.call params grid flux? source?

def evaluate (c : CompiledModel V) (params : ParamValues V) (grid : List V) : Outcome (List V) :=
  c.evaluateWith params grid none none

/-- The values for each of several sets of parameter values, or the first failure. -/
def evaluateBatch (c : CompiledModel V) (batch : List (ParamValues V)) (grid : List V) :
    Outcome (List (List V)) :=
  batch.mapM fun params => c.evaluate params grid

end CompiledModel

end SpectralAlgebra
