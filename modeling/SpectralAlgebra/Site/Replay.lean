import SpectralAlgebra.Log
import SpectralAlgebra.Site.Order

/-!
# Replaying a site

From values for the sample sites every site gets its value: first the sample sites in their order,
a constant standing in where none is given, then the deterministic sites in the order of
evaluation. A value given under a name that is no sample site is ignored, with a warning.
-/

namespace SpectralAlgebra

namespace Site

abbrev Values := OrderedMap String Float

/-- The value of a sample site: the one given for it, else its constant. -/
def sampleValue (samples : Values) (name : String) (prior : Prior) : Except SiteError Float :=
  match samples.get? name with
  | some x => .ok x
  | none =>
    match prior.fixedValue? with
    | some x => .ok x
    | none => .error (.missingValue name)

def replaySamples (samples : Values) :
    List (String × Prior) → Values → Except SiteError Values
  | [], values => .ok values
  | (name, prior) :: rest, values => do
    let x ← sampleValue samples name prior
    replaySamples samples rest (values.insert name x)

/-- The values of names, in order; the first name without one is missing. -/
def collect (values : Values) : List String → Except SiteError (List Float)
  | [] => .ok []
  | name :: rest =>
    match values.get? name with
    | none => .error (.missingValue name)
    | some x => do
      let xs ← collect values rest
      .ok (x :: xs)

/-- The values of deterministic sites, computed one after the other from what is there. -/
def replayDeterministic (s : Site) : List String → Values → Except SiteError Values
  | [], values => .ok values
  | name :: rest, values =>
    match s.deterministic.get? name with
    | none => replayDeterministic s rest values
    | some d => do
      let arguments ← collect values d.dependencies
      replayDeterministic s rest (values.insert name (d.combine arguments))

def replay (s : Site) (samples : Values) : Except SiteError Values := do
  let values ← replaySamples samples s.sample.entries ∅
  let names ← s.order
  replayDeterministic s names values

/-- One warning for each value given under a name that is no sample site. -/
def replayWarnings (s : Site) (samples : Values) : List Log.Entry :=
  (samples.keys.filter fun name => !s.sample.contains name).map fun name =>
    ⟨.warn, s!"ignoring value for '{name}': not a sample site"⟩

end Site

end SpectralAlgebra
