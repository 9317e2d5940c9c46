import SpectralAlgebra.Node

/-!
# Label spaces

Tagged labels carry identities so that no two leaves look the same. A label space takes the
identities out again and numbers the leaves that share a raw label: the first keeps it, the later
ones get `2`, `3`, … behind it, or `_2`, `_3`, … in formulas. Leaves are numbered as they are met
from left to right.

The numbering is kept together with the raw labels it was made from. A label space is consulted
before it is read: if a leaf was relabelled since, the numbering is made again.
-/

namespace SpectralAlgebra

/-- Every tagged label that occurs in a text is written as what it stands for, one entry after the
other. -/
def substitute (label : String) (mapping : OrderedMap String String) : String :=
  mapping.entries.foldl (fun text e => Text.replaceAll e.1 e.2 text) label

def LabelKind.identifier : LabelKind → String
  | name => "Name"
  | formula => "Fmt"

/-- The `n`-th label among leaves that share a raw label, counted from one. -/
def LabelKind.number (kind : LabelKind) (raw : String) (n : Nat) : String :=
  if n = 1 then raw
  else match kind with
    | name => raw ++ toString n
    | formula => raw ++ "_" ++ toString n

/-- Tagged and resolved labels of leaves given by raw label and identity. `seen` holds the leaves
before them; a leaf met again is passed over. -/
def resolveLabels (kind : LabelKind) :
    List (String × NodeId) → List (String × NodeId) → List (String × String)
  | _, [] => []
  | seen, (raw, id) :: rest =>
    if (raw, id) ∈ seen then resolveLabels kind seen rest
    else
      let earlier := seen.countP fun l => l.1 = raw
      (tag raw id, kind.number raw (earlier + 1)) :: resolveLabels kind ((raw, id) :: seen) rest

/-- A numbering and the raw labels, leaf by leaf, that it was made from. -/
structure Snapshot where
  labels : List String
  mapping : OrderedMap String String

def Snapshot.take (edits : Edits) (kind : LabelKind) (leaves : List (Leaf Unit)) : Snapshot where
  labels := leaves.map fun l => l.raw edits kind
  mapping := .ofList (resolveLabels kind [] (leaves.map fun l => (l.raw edits kind, l.id)))

structure LabelSpace (V : Type) where
  node : Node V
  names : Snapshot
  formulas : Snapshot

namespace LabelSpace

variable {V : Type}

def make (edits : Edits) (node : Node V) : LabelSpace V where
  node := node
  names := .take edits .name node.leaves
  formulas := .take edits .formula node.leaves

def snapshot (sp : LabelSpace V) : LabelKind → Snapshot
  | .name => sp.names
  | .formula => sp.formulas

/-- Whether a leaf's label differs from the one its numbering was made from. -/
def isStale (edits : Edits) (kind : LabelKind) (sp : LabelSpace V) : Bool :=
  (sp.node.leaves.map fun l => l.raw edits kind) ≠ (sp.snapshot kind).labels

def consult (edits : Edits) (kind : LabelKind) (sp : LabelSpace V) : LabelSpace V :=
  if sp.isStale edits kind then
    match kind with
    | .name => { sp with names := .take edits .name sp.node.leaves }
    | .formula => { sp with formulas := .take edits .formula sp.node.leaves }
  else sp

def consultEntries (edits : Edits) (kind : LabelKind) (sp : LabelSpace V) : List Log.Entry :=
  if sp.isStale edits kind then
    [⟨.debug, s!"leaf labels of '{sp.node.plainName}' changed, rebuilding {kind.identifier} "
      ++ "label space"⟩]
  else []

def mapping (edits : Edits) (kind : LabelKind) (sp : LabelSpace V) : OrderedMap String String :=
  ((sp.consult edits kind).snapshot kind).mapping

/-- The label of the node with every leaf's label resolved. -/
def label (edits : Edits) (kind : LabelKind) (sp : LabelSpace V) : String :=
  substitute (sp.node.label edits kind) (sp.mapping edits kind)

def resolve? (edits : Edits) (kind : LabelKind) (sp : LabelSpace V) (tagged : String) :
    Option String :=
  (sp.mapping edits kind).get? tagged

end LabelSpace

end SpectralAlgebra
