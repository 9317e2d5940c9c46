import SpectralAlgebra.Compilation

/-!
# JSON forms

How the public types are written as JSON and read back. Kinds, families, operators and shapes are
enumerations; supports, distributions, resolutions, options and summaries are records. Reading a
distribution does not check its parameters again.
-/

namespace SpectralAlgebra

/-- An enumeration of which no case carries anything, given by its tags. -/
def Json.oneOf? {α : Type} (cases : List (String × α)) (j : Json) : Option α := do
  let (tag, content) ← j.variant?
  if Json.isUnit content then OrderedMap.find tag cases else none

def Json.field? {α : Type} (read : Json → Option α) (content : Option Json) : Option α :=
  content.bind read

namespace Family

def encode (f : Family) : Json := .str f.text

def decode? : Json → Option Family :=
  Json.oneOf? [("parameter", parameter), ("model", model)]

end Family

namespace Operator

def encode : Operator → Json
  | add => .str "Add"
  | mul => .str "Mul"

def decode? : Json → Option Operator :=
  Json.oneOf? [("Add", add), ("Mul", mul)]

end Operator

namespace ConvolutionKind

def encode : ConvolutionKind → Json
  | flux => .str "flux"
  | norm => .str "norm"

def decode? : Json → Option ConvolutionKind :=
  Json.oneOf? [("flux", flux), ("norm", norm)]

end ConvolutionKind

namespace ModelKind

def encode : ModelKind → Json
  | additive => .str "additive"
  | multiplicative => .str "multiplicative"
  | convolution k => .obj [("convolution", k.encode)]

def decode? (j : Json) : Option ModelKind :=
  match j.variant? with
  | some ("convolution", content) => (Json.field? ConvolutionKind.decode? content).map convolution
  | _ => Json.oneOf? [("additive", additive), ("multiplicative", multiplicative)] j

end ModelKind

namespace Shape

def encode (s : Shape) : Json := .str s.identifier

def decode? : Json → Option Shape :=
  Json.oneOf? (all.map fun s => (s.identifier, s))

end Shape

namespace Resolution

def encode (r : Resolution) : Json := .obj [("kind", r.kind.encode), ("shape", r.shape.encode)]

def decode? (j : Json) : Option Resolution := do
  let [kind, shape] ← j.record? ["kind", "shape"] | none
  some ⟨← Json.field? ModelKind.decode? kind, ← Json.field? Shape.decode? shape⟩

end Resolution

namespace Support

def encode : Support → Json
  | real => .str "Real"
  | positive => .str "Positive"
  | nonNegative => .str "NonNegative"
  | interval low high =>
    .obj [("Interval", .obj [("low", .ofFloat low), ("high", .ofFloat high)])]

/-- The bounds of an interval are read from an object only. -/
def decode? (j : Json) : Option Support :=
  match j.variant? with
  | some ("Interval", some (.obj fields)) => do
    some (interval (← Json.field? Json.float? (Json.lookup "low" fields))
      (← Json.field? Json.float? (Json.lookup "high" fields)))
  | _ => Json.oneOf? [("Real", real), ("Positive", positive), ("NonNegative", nonNegative)] j

end Support

namespace Distribution

/-- The parameters of a distribution; one made elsewhere has none that are known. -/
def encode : Distribution → Json
  | uniform low high => .obj [("low", .ofFloat low), ("high", .ofFloat high)]
  | logUniform low high => .obj [("low", .ofFloat low), ("high", .ofFloat high)]
  | normal loc scale => .obj [("loc", .ofFloat loc), ("scale", .ofFloat scale)]
  | logNormal loc scale => .obj [("loc", .ofFloat loc), ("scale", .ofFloat scale)]
  | halfNormal scale => .obj [("scale", .ofFloat scale)]
  | custom .. => .obj []

def decodePair? (first second : String) (j : Json) : Option (Float × Float) := do
  let [x, y] ← j.record? [first, second] | none
  some (← Json.field? Json.float? x, ← Json.field? Json.float? y)

def decode? (family : String) (j : Json) : Option Distribution :=
  match family with
  | "Uniform" => (decodePair? "low" "high" j).map fun (low, high) => uniform low high
  | "LogUniform" => (decodePair? "low" "high" j).map fun (low, high) => logUniform low high
  | "Normal" => (decodePair? "loc" "scale" j).map fun (loc, scale) => normal loc scale
  | "LogNormal" => (decodePair? "loc" "scale" j).map fun (loc, scale) => logNormal loc scale
  | "HalfNormal" => do
    let [scale] ← j.record? ["scale"] | none
    some (halfNormal (← Json.field? Json.float? scale))
  | _ => none

end Distribution

namespace CompileOptions

def encode (o : CompileOptions) : Json :=
  .obj [("check_shapes", .bool o.checkShapes),
    ("parallel_batch_threshold", .int o.parallelBatchThreshold)]

/-- A field that stands for its usual value when it is left out. -/
def fieldOr {α : Type} (usual : α) (read : Json → Option α) : Option Json → Option α
  | none => some usual
  | some content => read content

/-- Fields may be left out of an object, and from the end of an array. -/
def decode? (j : Json) : Option CompileOptions := do
  let fields ← match j with
    | .obj fields =>
      some (Json.lookup "check_shapes" fields, Json.lookup "parallel_batch_threshold" fields)
    | .arr items => if items.length ≤ 2 then some (items[0]?, items[1]?) else none
    | _ => none
  let usual : CompileOptions := {}
  some ⟨← fieldOr usual.checkShapes Json.bool? fields.1,
    ← fieldOr usual.parallelBatchThreshold Json.size? fields.2⟩

end CompileOptions

namespace NodeId

def encode (id : NodeId) : Json := .str id.hyphenated

def decode? (j : Json) : Option NodeId := j.string?.bind ofString?

end NodeId

namespace Json

def ofAttributes (attributes : Attributes) : Json := .obj attributes.entries

def attributes? : Json → Option Attributes
  | .obj fields => some (.ofList fields)
  | _ => none

def nodeIds? : Json → Option (List NodeId)
  | .arr items => items.mapM NodeId.decode?
  | _ => none

def optional? {α : Type} (read : Json → Option α) : Option Json → Option (Option α)
  | none => some none
  | some .null => some none
  | some content => (read content).map some

end Json

namespace NodeSummary

def fieldNames : List String :=
  ["id", "type", "name", "fmt", "is_operation", "kind", "attrs", "predecessors"]

/-- The fields of the record. The kind stands in it only where there is one. -/
def fields (n : NodeSummary) : List (String × Json) :=
  [("id", n.id.encode), ("type", n.family.encode), ("name", .str n.name),
    ("fmt", .str n.formula), ("is_operation", .bool n.isOperation)]
    ++ (n.kind.map fun k => ("kind", k.encode)).toList
    ++ [("attrs", Json.ofAttributes n.attributes),
      ("predecessors", .arr (n.operands.map NodeId.encode))]

def encode (n : NodeSummary) : Json := .obj n.fields

def decode? (j : Json) : Option NodeSummary := do
  let [id, family, name, formula, isOperation, kind, attributes, operands] ←
    j.record? fieldNames | none
  some {
    id := ← Json.field? NodeId.decode? id
    family := ← Json.field? Family.decode? family
    name := ← Json.field? Json.string? name
    formula := ← Json.field? Json.string? formula
    isOperation := ← Json.field? Json.bool? isOperation
    kind := ← Json.optional? ModelKind.decode? kind
    attributes := ← Json.field? Json.attributes? attributes
    operands := ← Json.field? Json.nodeIds? operands }

end NodeSummary

end SpectralAlgebra
