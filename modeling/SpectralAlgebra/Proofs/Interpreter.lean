import SpectralAlgebra.Proofs.Shapes

/-!
# Evaluating a model as it stands

A model can be evaluated without being compiled, from its leaves up and by the kinds of its parts:
there is no mapping and no shape, and no parameter values are looked up, since every leaf's function
is called with values that are given for the leaf (`Model.interpret`). The evaluator that a model is
compiled to gives what the interpreter gives, the errors included, if every leaf is found the values
that the interpreter has for it (`Model.compile_interpreted`).

By recursion on the tree, with one lemma for the legal compositions. A source that is handed to an
evaluator is asked under the parameter values at hand; the interpreter is handed what it then gives.
-/

namespace SpectralAlgebra

variable {V : Type}

/-- Only norm convolutions are handed a source. -/
def ConvolutionKind.handed {S : Type} : ConvolutionKind → Option S → Option S
  | flux, _ => none
  | norm, source? => source?

/-- The values of a factor, times a flux if one is handed in. -/
def Spectrum.scale [Mul V] [Add V] (convolution : String) (F : Spectrum V)
    (flux? : Option (List V)) : Spectrum V := fun grid => do
  let xs ← F grid
  let ys ← needFlux convolution flux?
  Bins.combine .mul xs ys

namespace Model

section Interpreter

variable (check : Bool) (component : Leaf (ModelData V) → String) (label : Model V → String)
  (own : Leaf (ModelData V) → Params V)

/-- A leaf's function, made for the name of its component, is called with the leaf's own values. -/
def callLeaf (l : Leaf (ModelData V)) (flux? : Option (List V)) (source? : Option (Spectrum V)) :
    Spectrum V := fun grid =>
  match l.data.generator with
  | .additive make | .multiplicative make =>
    checkBins check (component l) grid (make (component l) grid (own l))
  | .fluxConvolution make => do
    let flux ← needFlux (component l) flux?
    checkBins check (component l) grid (make (component l) grid flux (own l))
  | .normConvolution make => do
    let flux ← needFlux (component l) flux?
    let source ← needSource (component l) source?
    let values ← make (component l) source grid flux (own l)
    checkBins check (component l) grid values

/-- What a model gives on a grid, handed a flux and a source or not. A factor is multiplied with
what stands to its right, and a convolution is handed the flux of it, a norm convolution also the
means to ask for that flux on other grids. -/
def interpret [Add V] [Mul V] : Model V → Option (List V) → Option (Spectrum V) → Spectrum V
  | .leaf l, flux?, source? => callLeaf check component own l flux? source?
  | .op _ .add _ x y, _, _ => .pointwise .add (interpret x none none) (interpret y none none)
  | .op id .mul r x y, flux?, source? =>
    match kind x, kind y with
    | .multiplicative, .convolution k =>
      .pointwise .mul (interpret x none none) (interpret y flux? (k.handed source?))
    | .convolution k, .additive => fun grid => do
      let flux ← interpret y none none grid
      interpret x (some flux) (k.handed (some (interpret y none none))) grid
    | .convolution .flux, .multiplicative => fun grid => do
      let flux ← Spectrum.scale (label (.op id .mul r x y)) (interpret y none none) flux? grid
      interpret x (some flux) none grid
    | .convolution .norm, .multiplicative => fun grid => do
      let flux ← Spectrum.scale (label (.op id .mul r x y)) (interpret y none none) flux? grid
      let source ← needSource (label (.op id .mul r x y)) source?
      interpret x (some flux) (some (.pointwise .mul (interpret y none none) source)) grid
    | .convolution .flux, .convolution k => fun grid => do
      let flux ← interpret y flux? (k.handed source?) grid
      interpret x (some flux) none grid
    | .convolution .norm, .convolution k => fun grid => do
      let source ← needSource (label (.op id .mul r x y)) source?
      let flux ← interpret y flux? none grid
      let chained : Spectrum V := fun grid => do
        let inner ← source grid
        interpret y (some inner) (k.handed none) grid
      interpret x (some flux) (some chained) grid
    | _, _ => .pointwise .mul (interpret x none none) (interpret y none none)

end Interpreter

end Model

/-! ## Evaluators that the interpreter describes -/

/-- Under the parameter values, the evaluator gives what is given for the flux and for what the
source gives under them. -/
def Evaluator.Answers (params : ParamValues V) (ev : Evaluator V)
    (answer : Option (List V) → Option (Spectrum V) → Spectrum V) : Prop :=
  ∀ grid flux? source?, ev.call params grid flux? source?
    = answer flux? (source?.map fun source => source params) grid

theorem needSource_map {S T : Type} (convolution : String) (f : S → T) :
    ∀ source? : Option S,
      needSource convolution (source?.map f) = f <$> needSource convolution source?
  | none => rfl
  | some _ => rfl

namespace Model

variable {check : Bool} {component : Leaf (ModelData V) → String} {label : Model V → String}
  {own : Leaf (ModelData V) → Params V} {params : ParamValues V} {ev m₁ m₂ : Evaluator V}

theorem callLeaf_answers {l : Leaf (ModelData V)}
    (h : lookupParams (component l) l.data.parameters.keys params = .ok (own l)) :
    Evaluator.Answers params ⟨component l, leafEvaluation check (component l) l.data⟩
      (callLeaf check component own l) := by
  intro grid flux? source?
  unfold callLeaf leafEvaluation
  rcases l.data.generator with make | make | make | make <;> simp only [h]
  · rfl
  · rfl
  · rfl
  · rw [needSource_map]
    cases source? <;> rfl

theorem op_answers [Add V] [Mul V] {id : NodeId} {o : Operator} {r : Resolution} {x y : Model V}
    (hr : Resolution.infer o x.kind y.kind = .ok r)
    (h₁ : Evaluator.Answers params m₁ (x.interpret check component label own))
    (h₂ : Evaluator.Answers params m₂ (y.interpret check component label own)) (name : String) :
    Evaluator.Answers params ⟨name, r.shape.evaluation (label (.op id o r x y)) m₁ m₂⟩
      (interpret check component label own (.op id o r x y)) := by
  intro grid flux? source?
  unfold Evaluator.Answers at h₁ h₂
  match o, hx : kind x, hy : kind y, r, hr with
  | .add, .additive, .additive, _, rfl =>
    simp only [interpret, Shape.evaluation, Evaluator.eval, h₁, h₂, Spectrum.pointwise_eq,
      Option.map_none]
  | .mul, .additive, .multiplicative, _, rfl
  | .mul, .multiplicative, .additive, _, rfl
  | .mul, .multiplicative, .multiplicative, _, rfl =>
    simp only [interpret, hx, hy, Shape.evaluation, Evaluator.eval, h₁, h₂, Spectrum.pointwise_eq,
      Option.map_none]
  | .mul, .multiplicative, .convolution .flux, _, rfl
  | .mul, .multiplicative, .convolution .norm, _, rfl =>
    simp only [interpret, hx, hy, Shape.evaluation, Evaluator.eval, h₁, h₂, Spectrum.pointwise_eq,
      Option.map_none, ConvolutionKind.handed]
  | .mul, .convolution .flux, .additive, _, rfl =>
    simp only [interpret, hx, hy, Shape.evaluation, Evaluator.eval, h₁, h₂, Option.map_none,
      ConvolutionKind.handed]
  | .mul, .convolution .flux, .multiplicative, _, rfl =>
    simp only [interpret, hx, hy, Shape.evaluation, Evaluator.eval, h₁, h₂, Option.map_none,
      Spectrum.scale, bind_assoc]
  | .mul, .convolution .flux, .convolution .flux, _, rfl
  | .mul, .convolution .flux, .convolution .norm, _, rfl =>
    simp only [interpret, hx, hy, Shape.evaluation, h₁, h₂, Option.map_none,
      ConvolutionKind.handed]
  | .mul, .convolution .norm, .additive, _, rfl =>
    have hsource : m₂.eval params = y.interpret check component label own none none :=
      funext fun g => h₂ g none none
    simp only [interpret, hx, hy, Shape.evaluation, h₁, hsource, Option.map_some,
      ConvolutionKind.handed]
  | .mul, .convolution .norm, .multiplicative, _, rfl =>
    have hsource : ∀ source : FluxSource V, Spectrum.pointwise .mul
        (y.interpret check component label own none none) (source params) = fun g =>
          m₂.eval params g >>= fun xs => source params g >>= fun ys => Bins.combine .mul xs ys :=
      fun source => funext fun g => by rw [Spectrum.pointwise_eq, Evaluator.eval, h₂]; rfl
    simp only [interpret, hx, hy, Shape.evaluation, hsource, Spectrum.scale, needSource_map,
      bind_assoc, bind_map_left]
    simp only [Evaluator.eval, h₁, h₂, Option.map_none, Option.map_some]
  | .mul, .convolution .norm, .convolution .flux, _, rfl =>
    simp only [interpret, hx, hy, Shape.evaluation, h₁, h₂, needSource_map, bind_map_left,
      Option.map_some, Option.map_none, ConvolutionKind.handed]

/-- If every leaf is found its own values under the name of its component, the evaluator of a model
gives what the interpreter gives. -/
theorem compile_interpreted [Add V] [Mul V] {mapping : OrderedMap String String}
    {options : CompileOptions} : ∀ {m : Model V} {ev : Evaluator V}, m.WellKinded →
      (∀ l ∈ m.leaves, mapping.get? l.taggedName = some (component l)) →
      (∀ l ∈ m.leaves,
        lookupParams (component l) l.data.parameters.keys params = .ok (own l)) →
      compile mapping options m = .ok ev → Evaluator.Answers params ev
        (m.interpret options.checkShapes component (fun m => substitute m.name mapping) own)
  | .leaf l, ev, _, hmapped, hown, h => by
    have hl := List.mem_singleton_self l
    obtain ⟨c, hc, rfl⟩ := compile_leaf_eq_ok.1 h
    obtain rfl := Option.some.inj (hc.symm.trans (hmapped l hl))
    exact callLeaf_answers (hown l hl)
  | .op id o r x y, ev, ⟨hx, hy, hr⟩, hmapped, hown, h => by
    obtain ⟨m₁, m₂, h₁, h₂, rfl⟩ := compile_op_eq_ok.1 h
    have ihx := compile_interpreted hx (fun l hl => hmapped l (List.mem_append_left _ hl))
      (fun l hl => hown l (List.mem_append_left _ hl)) h₁
    have ihy := compile_interpreted hy (fun l hl => hmapped l (List.mem_append_right _ hl))
      (fun l hl => hown l (List.mem_append_right _ hl)) h₂
    exact op_answers hr ihx ihy _

end Model

end SpectralAlgebra
