import SpectralAlgebra.Log
import SpectralAlgebra.Model

/-!
# Nodes

A node is a parameter or a model. What the two families share is stated here for both: labels,
operands, attributes, summaries, and composition, which fails across families.
-/

namespace SpectralAlgebra

inductive Node (V : Type) where
  | parameter (p : Parameter)
  | model (m : Model V)

/-- A record of a single node, for reports. -/
structure NodeSummary where
  id : NodeId
  family : Family
  name : String
  formula : String
  isOperation : Bool
  kind : Option ModelKind
  attributes : Attributes
  operands : List NodeId

namespace Node

variable {V : Type}

def family : Node V → Family
  | parameter _ => .parameter
  | model _ => .model

def id : Node V → NodeId
  | parameter p => p.id
  | model m => m.id

def isOperation : Node V → Bool
  | parameter p => p.isOperation
  | model m => m.isOperation

def isSum : Node V → Bool
  | parameter p => p.isSum
  | model m => m.isSum

def operands : Node V → List (Node V)
  | parameter p => p.operands.map .parameter
  | model m => m.operands.map .model

def leaves : Node V → List (Leaf Unit)
  | parameter p => (Expr.visit [p]).map Leaf.bare
  | model m => (Expr.visit [m]).map Leaf.bare

/-- The name with the identity behind every leaf. -/
def name : Node V → String
  | parameter p => p.name
  | model m => m.name

def plainName : Node V → String
  | parameter p => p.plainName
  | model m => m.plainName

def render (kind : LabelKind) (text : Leaf Unit → String) : Node V → String
  | parameter p => p.render (fun l => text l.bare) (Parameter.sign kind)
  | model m => m.render (fun l => text l.bare) (Model.sign kind)

def label (edits : Edits) (kind : LabelKind) (n : Node V) : String :=
  n.render kind fun l => l.tagged edits kind

def plainLabel (edits : Edits) (kind : LabelKind) (n : Node V) : String :=
  n.render kind fun l => l.raw edits kind

theorem label_name (edits : Edits) : ∀ n : Node V, n.label edits .name = n.name
  | parameter _ => rfl
  | model _ => rfl

/-- The label of the node alone: for an operation its sign. -/
def ownLabel (edits : Edits) (kind : LabelKind) : Node V → String
  | parameter (.leaf l) => l.raw edits kind
  | parameter (.op _ o _ lh _) => Parameter.sign kind o lh
  | model (.leaf l) => l.raw edits kind
  | model (.op _ o _ lh _) => Model.sign kind o lh

def attributes (edits : Edits) : Node V → Attributes
  | parameter p => p.attributes edits
  | model m => m.attributes edits

def site : Node V → Site
  | parameter p => Parameter.site p
  | model m => Model.site m

def kind? : Node V → Option ModelKind
  | parameter _ => none
  | model m => some (Model.kind m)

def debug : Node V → String
  | parameter p => Parameter.debug p
  | model m => Model.debug m

def combine (id : NodeId) (o : Operator) : Node V → Node V → Except CompositionError (Node V)
  | parameter lh, parameter rh => .ok (.parameter (Parameter.combine id o lh rh))
  | model lh, model rh => (Model.combine id o lh rh).map .model
  | lh, rh => .error (.familyMismatch o lh.plainName lh.family rh.plainName rh.family)

def resolutionText : Node V → String
  | model (.op _ _ r _ _) => r.debug
  | _ => "()"

def compositionEntries (o : Operator) (lh rh composite : Node V) : List Log.Entry :=
  [⟨.debug, s!"{composite.family.text} composite: {lh.plainName} {o.symbol} {rh.plainName} -> "
    ++ composite.resolutionText⟩]

def summary (edits : Edits) (n : Node V) : NodeSummary where
  id := n.id
  family := n.family
  name := n.plainName
  formula := n.plainLabel edits .formula
  isOperation := n.isOperation
  kind := n.kind?
  attributes := n.attributes edits
  operands := n.operands.map id

end Node

end SpectralAlgebra
