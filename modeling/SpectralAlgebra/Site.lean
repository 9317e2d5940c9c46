import SpectralAlgebra.Distribution
import SpectralAlgebra.OrderedMap
import SpectralAlgebra.Text.Quoted

/-!
# Sites

What an inference engine is given: sample sites, drawn from their priors, and deterministic sites,
which are functions of other named values. Both are ordered maps by name, and merging two sites lets
the second win on a common name.
-/

namespace SpectralAlgebra

/-- A function of the values of the dependencies, in the order they are declared. -/
abbrev Combinator := List Float → Float

structure DeterministicSite where
  dependencies : List String
  combine : Combinator

def DeterministicSite.debug (d : DeterministicSite) : String :=
  "DeterministicSite \x7b dependencies: " ++ Text.quoteList d.dependencies ++ ", .. \x7d"

inductive SiteError where
  | missingValue (name : String)
  | cycle (name : String)
  deriving DecidableEq

def SiteError.message : SiteError → String
  | missingValue name => s!"no value for site '{name}'"
  | cycle name => s!"deterministic sites form a cycle through '{name}'"

structure Site where
  sample : OrderedMap String Prior := ∅
  deterministic : OrderedMap String DeterministicSite := ∅

namespace Site

instance : EmptyCollection Site := ⟨{}⟩

def isEmpty (s : Site) : Bool := s.sample.isEmpty && s.deterministic.isEmpty

def addSample (s : Site) (name : String) (prior : Prior) : Site :=
  { s with sample := s.sample.insert name prior }

def addDeterministic (s : Site) (name : String) (d : DeterministicSite) : Site :=
  { s with deterministic := s.deterministic.insert name d }

/-- The sites of both; on a common name those of the second. -/
def merge (s t : Site) : Site where
  sample := s.sample.merge t.sample
  deterministic := s.deterministic.merge t.deterministic

end Site

end SpectralAlgebra
