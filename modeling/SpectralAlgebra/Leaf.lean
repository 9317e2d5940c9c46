import SpectralAlgebra.Json
import SpectralAlgebra.NodeId
import SpectralAlgebra.OrderedMap

/-!
# Leaves and what may change about them

A leaf has an identity, a name, a formula label and attributes, and data of its family. Leaves are
values and never change. What is changed later is recorded apart, in `Edits`, by identity: formula
labels, defaults and attributes. Names and identities cannot be edited, so whatever is computed
from them alone holds for good.
-/

namespace SpectralAlgebra

abbrev Attributes := OrderedMap String Json

/-- The attribute keys that a node keeps for itself. -/
def reservedAttributes : List String := ["id", "type", "name", "fmt"]

/-- Selects one of the two labels of a node: its plain name or its formula label. -/
inductive LabelKind where
  | name
  | formula
  deriving DecidableEq, Inhabited

inductive NodeError where
  | reservedAttribute (key : String)
  | notALeaf (name : String)
  deriving DecidableEq

def NodeError.message : NodeError → String
  | reservedAttribute key => s!"got multiple values for attribute \"{key}\""
  | notALeaf name => s!"'{name}' is an operation node; only leaves can be modified"

def checkAttributes (attributes : Attributes) : Except NodeError Unit :=
  match attributes.keys.find? (reservedAttributes.contains ·) with
  | some key => .error (.reservedAttribute key)
  | none => .ok ()

/-- What has been changed since nodes were made. -/
structure Edits where
  formulas : OrderedMap NodeId String := ∅
  defaults : OrderedMap NodeId Float := ∅
  attributes : OrderedMap NodeId Attributes := ∅

instance : EmptyCollection Edits := ⟨{}⟩

structure Leaf (D : Type) where
  id : NodeId
  name : String
  formula : String
  attributes : Attributes
  data : D

def tag (label : String) (id : NodeId) : String := label ++ "_" ++ id.hex

namespace Leaf

variable {D : Type}

def bare (l : Leaf D) : Leaf Unit := ⟨l.id, l.name, l.formula, l.attributes, ()⟩

/-- The label as given when the leaf was made or last relabelled. -/
def raw (edits : Edits) (l : Leaf D) : LabelKind → String
  | .name => l.name
  | .formula => (edits.formulas.get? l.id).getD l.formula

/-- A raw label with the identity behind it, so that no two leaves look the same. -/
def tagged (edits : Edits) (l : Leaf D) (kind : LabelKind) : String := tag (l.raw edits kind) l.id

/-- The tagged name, which no edit changes. -/
def taggedName (l : Leaf D) : String := tag l.name l.id

end Leaf

end SpectralAlgebra
