import SpectralAlgebra.Compilation
import SpectralAlgebra.Proofs.Construction

/-!
# What a model means

An additive model means a spectrum, which gives bin values on every grid; so does a multiplicative
one. Multiplicative models and convolutions act on spectra. A sum is the sum bin by bin, a product
without a convolution on its left is the product bin by bin, a convolution before an additive model
acts on it, and a product that is a convolution itself is one action after the other.

The evaluator of an additive model gives the values of its spectrum, whatever flux and flux source
are handed in (`Model.compile_additive`). By recursion on the tree: evaluators of additive and
multiplicative models give their spectra (`Evaluator.Gives`), those of flux convolutions act on the
flux as the model acts on a spectrum (`Evaluator.Acts`), and those of norm convolutions do so if the
source they are handed gives the same spectrum as the flux (`Evaluator.ActsOn`). One lemma for each
shape says how the three pass through it.
-/

namespace SpectralAlgebra

variable {V : Type}

/-! ## Outcomes with the same values -/

/-- Two outcomes have the same value, or both have none. -/
def Agree {α : Type} (a b : Outcome α) : Prop := ∀ v, a = .ok v ↔ b = .ok v

namespace Agree

variable {α β γ : Type}

theorem refl (a : Outcome α) : Agree a a := fun _ => Iff.rfl

theorem symm {a b : Outcome α} (h : Agree a b) : Agree b a := fun v => (h v).symm

theorem trans {a b c : Outcome α} (h : Agree a b) (h' : Agree b c) : Agree a c :=
  fun v => (h v).trans (h' v)

theorem bind {a b : Outcome α} {f g : α → Outcome β} (h : Agree a b)
    (hf : ∀ x, Agree (f x) (g x)) : Agree (a >>= f) (b >>= g) := by
  intro v
  rw [Except.bind_eq_ok, Except.bind_eq_ok]
  exact exists_congr fun x => and_congr (h x) (hf x v)

theorem bind_left {a b : Outcome α} (h : Agree a b) (f : α → Outcome β) :
    Agree (a >>= f) (b >>= f) :=
  h.bind fun x => refl (f x)

theorem bind_bind {a : Outcome α} {f : α → Outcome β} {b : Outcome β} (h : Agree (a >>= f) b)
    (g : β → Outcome γ) : Agree (a >>= fun x => f x >>= g) (b >>= g) := by
  rw [← bind_assoc]
  exact h.bind_left g

/-- Which of two things is asked for first makes no difference to the values. -/
theorem comm (a : Outcome α) (b : Outcome β) (f : α → β → Outcome γ) :
    Agree (a >>= fun x => b >>= fun y => f x y) (b >>= fun y => a >>= fun x => f x y) := by
  intro v
  simp only [Except.bind_eq_ok]
  exact ⟨fun ⟨x, hx, y, hy, h⟩ => ⟨y, hy, x, hx, h⟩, fun ⟨y, hy, x, hx, h⟩ => ⟨x, hx, y, hy, h⟩⟩

end Agree

/-! ## Spectra -/

/-- Bin values on every grid. -/
abbrev Spectrum (V : Type) := List V → Outcome (List V)

def Spectrum.pointwise [Add V] [Mul V] (o : Operator) (F G : Spectrum V) : Spectrum V :=
  fun grid => do
    let xs ← F grid
    let ys ← G grid
    if xs.length = ys.length then .ok (List.zipWith o.apply xs ys)
    else .error (.shapeMismatch xs.length ys.length)

theorem Bins.combine_eq [Add V] [Mul V] (o : Operator) (xs ys : List V) :
    Bins.combine o xs ys = if xs.length = ys.length then .ok (List.zipWith o.apply xs ys)
      else .error (.shapeMismatch xs.length ys.length) := by
  unfold Bins.combine
  split
  · rename_i h
    rw [Bins.zip_eq_zipWith _ xs ys h]
  · rfl

theorem Spectrum.pointwise_eq [Add V] [Mul V] (o : Operator) (F G : Spectrum V) (grid : List V) :
    Spectrum.pointwise o F G grid
      = F grid >>= fun xs => G grid >>= fun ys => Bins.combine o xs ys := by
  simp only [Spectrum.pointwise, Bins.combine_eq]

theorem Spectrum.combine_agree [Add V] [Mul V] {o : Operator} {F G : Spectrum V} {grid : List V}
    {a b : Outcome (List V)} (ha : Agree a (F grid)) (hb : Agree b (G grid)) :
    Agree (a >>= fun xs => b >>= fun ys => Bins.combine o xs ys)
      (Spectrum.pointwise o F G grid) := by
  rw [Spectrum.pointwise_eq]
  exact ha.bind fun xs => hb.bind_left _

theorem Spectrum.combine_comm_agree [Add V] [Mul V] {o : Operator} {F G : Spectrum V}
    {grid : List V} {a : Outcome (List V)} (ha : Agree a (F grid))
    (f : List V → Outcome (List V)) :
    Agree (G grid >>= fun ys => a >>= fun xs => Bins.combine o xs ys >>= f)
      (Spectrum.pointwise o F G grid >>= f) := by
  have h := Agree.comm (G grid) a fun ys xs => Bins.combine o xs ys
  have h' := (h.trans (Spectrum.combine_agree ha (.refl _))).bind_left f
  simpa only [bind_assoc] using h'

/-- A computation passes on the failures of its source: where it has a value, it has the same with
any source that gives what the first one gives on every grid where that gives something. -/
def Strict {α : Type} (c : (List V → Outcome (List V)) → Outcome α) : Prop :=
  ∀ source source', (∀ g v, source g = .ok v → source' g = .ok v) →
    ∀ a, c source = .ok a → c source' = .ok a

namespace Strict

variable {α β : Type}

theorem const (a : Outcome α) : Strict (V := V) fun _ => a := fun _ _ _ _ h => h

theorem ask (grid : List V) : Strict fun source => source grid :=
  fun _ _ h v => h grid v

theorem bind {c : (List V → Outcome (List V)) → Outcome α}
    {d : α → (List V → Outcome (List V)) → Outcome β} (hc : Strict c) (hd : ∀ a, Strict (d a)) :
    Strict fun source => c source >>= fun a => d a source := by
  intro source source' h b hb
  obtain ⟨a, ha, hb⟩ := Except.bind_eq_ok.1 hb
  exact Except.bind_eq_ok.2 ⟨a, hc source source' h a ha, hd a source source' h b hb⟩

theorem agree {c : (List V → Outcome (List V)) → Outcome α} (hc : Strict c)
    {source source' : List V → Outcome (List V)} (h : ∀ g, Agree (source g) (source' g)) :
    Agree (c source) (c source') :=
  fun a => ⟨hc source source' (fun g v => (h g v).1) a, hc source' source (fun g v => (h g v).2) a⟩

end Strict

/-- A norm convolution passes on the failures of the flux source it is given. -/
def NormFn.PassesOn (f : NormFn V) : Prop :=
  ∀ grid flux own, Strict fun source => f source grid flux own

def Model.PassesOn (m : Model V) : Prop :=
  ∀ l ∈ m.leaves, ∀ make, l.data.generator = .normConvolution make →
    ∀ component, NormFn.PassesOn (make component)

section Meaning

variable [Add V] [Mul V] (check : Bool) (mapping : OrderedMap String String)
  (params : ParamValues V)

def Model.component (l : Leaf (ModelData V)) : Outcome String :=
  match mapping.get? l.taggedName with
  | some component => .ok component
  | none => .error (.unmappedComponent l.taggedName)

def Model.leafSpectrum (l : Leaf (ModelData V)) : Spectrum V := fun grid => do
  let component ← Model.component mapping l
  let own ← lookupParams component l.data.parameters.keys params
  match l.data.generator with
  | .additive make | .multiplicative make =>
    checkBins check component grid (make component grid own)
  | .fluxConvolution _ | .normConvolution _ => .error (.missingFlux component)

/-- What a leaf makes of a spectrum: a factor of it, or its function on the flux, with the spectrum
itself at hand for a norm convolution. -/
def Model.leafTransform (l : Leaf (ModelData V)) (F : Spectrum V) : Spectrum V :=
  match l.data.generator with
  | .additive _ | .multiplicative _ => .pointwise .mul (Model.leafSpectrum check mapping params l) F
  | .fluxConvolution make => fun grid => do
    let component ← Model.component mapping l
    let own ← lookupParams component l.data.parameters.keys params
    let flux ← F grid
    checkBins check component grid (make component grid flux own)
  | .normConvolution make => fun grid => do
    let component ← Model.component mapping l
    let own ← lookupParams component l.data.parameters.keys params
    let flux ← F grid
    let values ← make component F grid flux own
    checkBins check component grid values

mutual

/-- The spectrum of an additive or a multiplicative model. -/
def Model.spectrum : Model V → Spectrum V
  | .leaf l => Model.leafSpectrum check mapping params l
  | .op _ .add _ x y => .pointwise .add (spectrum x) (spectrum y)
  | .op _ .mul _ x y =>
    if (Model.kind x).isConvolution then transform x (spectrum y)
    else .pointwise .mul (spectrum x) (spectrum y)

/-- What a multiplicative model or a convolution makes of a spectrum. -/
def Model.transform : Model V → Spectrum V → Spectrum V
  | .leaf l => Model.leafTransform check mapping params l
  | .op _ _ r x y =>
    if r.kind = .multiplicative then
      Spectrum.pointwise .mul (.pointwise .mul (spectrum x) (spectrum y))
    else fun F => transform x (transform y F)

end

end Meaning

/-! ## What evaluators do -/

namespace Evaluator

variable {params : ParamValues V} {S : Spectrum V} {T : Spectrum V → Spectrum V}

/-- The evaluator gives the values of a spectrum, whatever it is handed. -/
def Gives (ev : Evaluator V) (params : ParamValues V) (S : Spectrum V) : Prop :=
  ∀ grid flux? source?, Agree (ev.call params grid flux? source?) (S grid)

/-- Handed the flux of a spectrum, the evaluator gives what a transform makes of it. -/
def Acts (ev : Evaluator V) (params : ParamValues V) (T : Spectrum V → Spectrum V) : Prop :=
  ∀ F grid source?,
    Agree (F grid >>= fun flux => ev.call params grid (some flux) source?) (T F grid)

/-- Handed the flux of a spectrum and a source of it, the evaluator gives what a transform makes of
it. -/
def ActsOn (ev : Evaluator V) (params : ParamValues V) (T : Spectrum V → Spectrum V) : Prop :=
  ∀ (F : Spectrum V) (source : FluxSource V), (∀ g, Agree (source params g) (F g)) → ∀ grid,
    Agree (F grid >>= fun flux => ev.call params grid (some flux) (some source)) (T F grid)

theorem Gives.eval {ev : Evaluator V} (h : ev.Gives params S) (grid : List V) :
    Agree (ev.eval params grid) (S grid) :=
  h grid none none

end Evaluator

/-! ## Shapes -/

namespace Shape

variable [Add V] [Mul V] {params : ParamValues V} {F G : Spectrum V}
  {T U : Spectrum V → Spectrum V} {m₁ m₂ : Evaluator V}

theorem addAdd_gives (name label : String) (h₁ : m₁.Gives params F) (h₂ : m₂.Gives params G) :
    Evaluator.Gives ⟨name, addAdd.evaluation label m₁ m₂⟩ params (.pointwise .add F G) :=
  fun grid _ _ => Spectrum.combine_agree (h₁.eval grid) (h₂.eval grid)

theorem product_gives (name label : String) (h₁ : m₁.Gives params F) (h₂ : m₂.Gives params G) :
    Evaluator.Gives ⟨name, product.evaluation label m₁ m₂⟩ params (.pointwise .mul F G) :=
  fun grid _ _ => Spectrum.combine_agree (h₁.eval grid) (h₂.eval grid)

theorem mulFlux_acts (name label : String) (h₁ : m₁.Gives params F) (h₂ : m₂.Acts params T) :
    Evaluator.Acts ⟨name, mulFlux.evaluation label m₁ m₂⟩ params
      fun H => .pointwise .mul F (T H) := by
  intro H grid source?
  -- the evaluator asks for the factor after it has been handed the flux
  refine (Agree.comm (H grid) (m₁.eval params grid) _).trans ?_
  have h := Spectrum.combine_agree (o := .mul) (h₁.eval grid) (h₂ H grid none)
  simpa only [bind_assoc] using h

theorem mulNorm_actsOn (name label : String) (h₁ : m₁.Gives params F) (h₂ : m₂.ActsOn params T) :
    Evaluator.ActsOn ⟨name, mulNorm.evaluation label m₁ m₂⟩ params
      fun H => .pointwise .mul F (T H) := by
  intro H source hs grid
  refine (Agree.comm (H grid) (m₁.eval params grid) _).trans ?_
  have h := Spectrum.combine_agree (o := .mul) (h₁.eval grid) (h₂ H source hs grid)
  simpa only [bind_assoc] using h

theorem fluxAdd_gives (name label : String) (h₁ : m₁.Acts params T) (h₂ : m₂.Gives params F) :
    Evaluator.Gives ⟨name, fluxAdd.evaluation label m₁ m₂⟩ params (T F) :=
  fun grid _ _ => ((h₂.eval grid).bind_left _).trans (h₁ F grid none)

theorem fluxMul_acts (name label : String) (h₁ : m₁.Acts params T) (h₂ : m₂.Gives params F) :
    Evaluator.Acts ⟨name, fluxMul.evaluation label m₁ m₂⟩ params
      fun H => T (.pointwise .mul F H) :=
  fun H grid _ => (Spectrum.combine_comm_agree (h₂.eval grid) _).trans
    (h₁ (.pointwise .mul F H) grid none)

theorem fluxFlux_acts (name label : String) (h₁ : m₁.Acts params T) (h₂ : m₂.Acts params U) :
    Evaluator.Acts ⟨name, fluxFlux.evaluation label m₁ m₂⟩ params fun H => T (U H) :=
  fun H grid _ => ((h₂ H grid none).bind_bind _).trans (h₁ (U H) grid none)

theorem fluxNorm_actsOn (name label : String) (h₁ : m₁.Acts params T)
    (h₂ : m₂.ActsOn params U) :
    Evaluator.ActsOn ⟨name, fluxNorm.evaluation label m₁ m₂⟩ params fun H => T (U H) :=
  fun H source hs grid => ((h₂ H source hs grid).bind_bind _).trans (h₁ (U H) grid none)

theorem normAdd_gives (name label : String) (h₁ : m₁.ActsOn params T) (h₂ : m₂.Gives params F) :
    Evaluator.Gives ⟨name, normAdd.evaluation label m₁ m₂⟩ params (T F) :=
  fun grid _ _ => ((h₂.eval grid).bind_left _).trans (h₁ F m₂.eval h₂.eval grid)

/-- The source handed on is the one handed in, times the factor. -/
theorem normMul_actsOn (name label : String) (h₁ : m₁.ActsOn params T) (h₂ : m₂.Gives params F) :
    Evaluator.ActsOn ⟨name, normMul.evaluation label m₁ m₂⟩ params
      fun H => T (.pointwise .mul F H) := by
  intro H source hs grid
  let chained : FluxSource V := fun params grid => do
    let xs ← m₂.eval params grid
    let ys ← source params grid
    Bins.combine .mul xs ys
  have hc : ∀ g, Agree (chained params g) (Spectrum.pointwise .mul F H g) :=
    fun g => Spectrum.combine_agree (h₂.eval g) (hs g)
  exact (Spectrum.combine_comm_agree (h₂.eval grid) _).trans
    (h₁ (.pointwise .mul F H) chained hc grid)

/-- The source handed on is the convolution acting on the one handed in. -/
theorem normFlux_actsOn (name label : String) (h₁ : m₁.ActsOn params T) (h₂ : m₂.Acts params U) :
    Evaluator.ActsOn ⟨name, normFlux.evaluation label m₁ m₂⟩ params fun H => T (U H) := by
  intro H source hs grid
  let chained : FluxSource V := fun params grid => do
    let inner ← source params grid
    m₂.call params grid (some inner) none
  have hc : ∀ g, Agree (chained params g) (U H g) :=
    fun g => ((hs g).bind_left _).trans (h₂ H g none)
  exact ((h₂ H grid none).bind_bind _).trans (h₁ (U H) chained hc grid)

end Shape

/-! ## Leaves -/

theorem lookupParams_of_get? {component : String} {declared : List String} {own : Params V}
    {params : ParamValues V} (h : params.get? component = some own)
    (hd : ∀ name ∈ declared, name ∈ own.keys) :
    lookupParams component declared params = .ok own := by
  have hf : declared.find? (!own.contains ·) = none := by
    rw [List.find?_eq_none]
    intro name hn
    simpa [OrderedMap.contains_iff] using hd name hn
  simp only [lookupParams, h, hf]

theorem exists_lookupParams_nil (component : String) (params : ParamValues V) :
    ∃ own, lookupParams component [] params = .ok own := by
  unfold lookupParams
  rcases params.get? component with _ | own
  · exact ⟨∅, rfl⟩
  · exact ⟨own, rfl⟩

theorem Model.component_eq {mapping : OrderedMap String String} {l : Leaf (ModelData V)}
    {component : String} (h : mapping.get? l.taggedName = some component) :
    Model.component mapping l = .ok component := by
  unfold Model.component
  rw [h]

theorem Model.passesOn_op {id : NodeId} {o : Operator} {r : Resolution} {x y : Model V}
    (h : PassesOn (.op id o r x y)) : x.PassesOn ∧ y.PassesOn :=
  ⟨fun l hl => h l (List.mem_append_left _ hl), fun l hl => h l (List.mem_append_right _ hl)⟩

section Realized

variable [Add V] [Mul V] (check : Bool) (mapping : OrderedMap String String)
  (params : ParamValues V)

/-- The evaluator of a model does what a model of that kind means. -/
def Model.RealizedBy (m : Model V) (ev : Evaluator V) : Prop :=
  match m.kind with
  | .additive | .multiplicative => ev.Gives params (m.spectrum check mapping params)
  | .convolution .flux => ev.Acts params (m.transform check mapping params)
  | .convolution .norm => ev.ActsOn params (m.transform check mapping params)

variable {check mapping params}

namespace Model

variable {m x y : Model V} {ev m₁ m₂ : Evaluator V}

theorem realizedBy_additive (hk : m.kind = .additive) :
    RealizedBy check mapping params m ev ↔ ev.Gives params (m.spectrum check mapping params) := by
  unfold RealizedBy
  rw [hk]

theorem realizedBy_multiplicative (hk : m.kind = .multiplicative) :
    RealizedBy check mapping params m ev ↔ ev.Gives params (m.spectrum check mapping params) := by
  unfold RealizedBy
  rw [hk]

theorem realizedBy_flux (hk : m.kind = .convolution .flux) :
    RealizedBy check mapping params m ev ↔ ev.Acts params (m.transform check mapping params) := by
  unfold RealizedBy
  rw [hk]

theorem realizedBy_norm (hk : m.kind = .convolution .norm) :
    RealizedBy check mapping params m ev ↔ ev.ActsOn params (m.transform check mapping params) := by
  unfold RealizedBy
  rw [hk]

theorem spectrum_product {id : NodeId} {r : Resolution} (hx : (kind x).isConvolution = false) :
    spectrum check mapping params (.op id .mul r x y)
      = .pointwise .mul (x.spectrum check mapping params) (y.spectrum check mapping params) := by
  rw [spectrum, hx]
  rfl

theorem spectrum_applied {id : NodeId} {r : Resolution} (hx : (kind x).isConvolution = true) :
    spectrum check mapping params (.op id .mul r x y)
      = x.transform check mapping params (y.spectrum check mapping params) := by
  rw [spectrum, hx]
  rfl

theorem transform_chain {id : NodeId} {o : Operator} {r : Resolution}
    (hr : r.kind.isConvolution = true) :
    transform check mapping params (.op id o r x y)
      = fun F => x.transform check mapping params (y.transform check mapping params F) := by
  rw [transform, if_neg]
  intro h
  rw [h] at hr
  cases hr

theorem realizedBy_leaf {l : Leaf (ModelData V)} {component : String}
    (hc : mapping.get? l.taggedName = some component) (hk : l.data.generator.kind = l.data.kind)
    (hp : ∀ make, l.data.generator = .normConvolution make →
      NormFn.PassesOn (make component)) :
    RealizedBy check mapping params (.leaf l)
      ⟨component, leafEvaluation check component l.data⟩ := by
  unfold RealizedBy
  rw [show kind (.leaf l) = l.data.generator.kind from hk.symm]
  rcases hg : l.data.generator with make | make | make | make
  · intro grid flux? source?
    unfold leafEvaluation spectrum leafSpectrum
    rw [component_eq hc, hg]
    exact Agree.refl _
  · intro grid flux? source?
    unfold leafEvaluation spectrum leafSpectrum
    rw [component_eq hc, hg]
    exact Agree.refl _
  · intro F grid source?
    unfold leafEvaluation transform leafTransform
    rw [component_eq hc, hg]
    exact Agree.comm _ _ _
  · -- the source may fail otherwise than the spectrum, so the two only agree
    intro F source hs grid
    unfold leafEvaluation transform leafTransform
    rw [component_eq hc, hg]
    refine (Agree.comm _ _ _).trans ?_
    refine (Agree.refl _).bind fun own => (Agree.refl _).bind fun flux => ?_
    exact ((hp make hg grid flux own).agree hs).bind_left _

/-- A multiplicative model is a factor. -/
theorem transform_of_multiplicative {m : Model V} (hw : m.WellKinded)
    (hk : m.kind = .multiplicative) :
    m.transform check mapping params = .pointwise .mul (m.spectrum check mapping params) := by
  funext F
  match m, hw, hk with
  | .leaf l, hw, hk =>
    have hl : l.data.generator.kind = .multiplicative := hw.trans hk
    unfold transform spectrum leafTransform
    rcases hg : l.data.generator with make | make | make | make
    · rfl
    · rfl
    · rw [hg] at hl
      cases hl
    · rw [hg] at hl
      cases hl
  | .op id o r x y, ⟨_, _, hr⟩, hk =>
    have hk : r.kind = .multiplicative := hk
    unfold transform
    rw [if_pos hk]
    match o, hx : kind x, hy : kind y, r, hr, hk with
    | .mul, .multiplicative, .multiplicative, _, rfl, _ =>
      rw [spectrum_product (congrArg ModelKind.isConvolution hx)]

theorem realizedBy_op {id : NodeId} {o : Operator} {r : Resolution} (hwx : x.WellKinded)
    (hwy : y.WellKinded) (hr : Resolution.infer o x.kind y.kind = .ok r)
    (h₁ : x.RealizedBy check mapping params m₁) (h₂ : y.RealizedBy check mapping params m₂)
    (name label : String) :
    RealizedBy check mapping params (.op id o r x y) ⟨name, r.shape.evaluation label m₁ m₂⟩ := by
  -- one case for each legal composition; a factor on the right acts before what is on its left
  match o, hx : kind x, hy : kind y, r, hr with
  | .add, .additive, .additive, _, rfl =>
    rw [realizedBy_additive hx] at h₁
    rw [realizedBy_additive hy] at h₂
    rw [realizedBy_additive rfl, spectrum]
    exact Shape.addAdd_gives name label h₁ h₂
  | .mul, .additive, .multiplicative, _, rfl =>
    rw [realizedBy_additive hx] at h₁
    rw [realizedBy_multiplicative hy] at h₂
    rw [realizedBy_additive rfl, spectrum_product (congrArg ModelKind.isConvolution hx)]
    exact Shape.product_gives name label h₁ h₂
  | .mul, .multiplicative, .additive, _, rfl =>
    rw [realizedBy_multiplicative hx] at h₁
    rw [realizedBy_additive hy] at h₂
    rw [realizedBy_additive rfl, spectrum_product (congrArg ModelKind.isConvolution hx)]
    exact Shape.product_gives name label h₁ h₂
  | .mul, .multiplicative, .multiplicative, _, rfl =>
    rw [realizedBy_multiplicative hx] at h₁
    rw [realizedBy_multiplicative hy] at h₂
    rw [realizedBy_multiplicative rfl, spectrum_product (congrArg ModelKind.isConvolution hx)]
    exact Shape.product_gives name label h₁ h₂
  | .mul, .multiplicative, .convolution .flux, _, rfl =>
    rw [realizedBy_multiplicative hx] at h₁
    rw [realizedBy_flux hy] at h₂
    rw [realizedBy_flux rfl, transform_chain rfl, transform_of_multiplicative hwx hx]
    exact Shape.mulFlux_acts name label h₁ h₂
  | .mul, .multiplicative, .convolution .norm, _, rfl =>
    rw [realizedBy_multiplicative hx] at h₁
    rw [realizedBy_norm hy] at h₂
    rw [realizedBy_norm rfl, transform_chain rfl, transform_of_multiplicative hwx hx]
    exact Shape.mulNorm_actsOn name label h₁ h₂
  | .mul, .convolution .flux, .additive, _, rfl =>
    rw [realizedBy_flux hx] at h₁
    rw [realizedBy_additive hy] at h₂
    rw [realizedBy_additive rfl, spectrum_applied (congrArg ModelKind.isConvolution hx)]
    exact Shape.fluxAdd_gives name label h₁ h₂
  | .mul, .convolution .flux, .multiplicative, _, rfl =>
    rw [realizedBy_flux hx] at h₁
    rw [realizedBy_multiplicative hy] at h₂
    rw [realizedBy_flux rfl, transform_chain rfl, transform_of_multiplicative hwy hy]
    exact Shape.fluxMul_acts name label h₁ h₂
  | .mul, .convolution .flux, .convolution .flux, _, rfl =>
    rw [realizedBy_flux hx] at h₁
    rw [realizedBy_flux hy] at h₂
    rw [realizedBy_flux rfl, transform_chain rfl]
    exact Shape.fluxFlux_acts name label h₁ h₂
  | .mul, .convolution .flux, .convolution .norm, _, rfl =>
    rw [realizedBy_flux hx] at h₁
    rw [realizedBy_norm hy] at h₂
    rw [realizedBy_norm rfl, transform_chain rfl]
    exact Shape.fluxNorm_actsOn name label h₁ h₂
  | .mul, .convolution .norm, .additive, _, rfl =>
    rw [realizedBy_norm hx] at h₁
    rw [realizedBy_additive hy] at h₂
    rw [realizedBy_additive rfl, spectrum_applied (congrArg ModelKind.isConvolution hx)]
    exact Shape.normAdd_gives name label h₁ h₂
  | .mul, .convolution .norm, .multiplicative, _, rfl =>
    rw [realizedBy_norm hx] at h₁
    rw [realizedBy_multiplicative hy] at h₂
    rw [realizedBy_norm rfl, transform_chain rfl, transform_of_multiplicative hwy hy]
    exact Shape.normMul_actsOn name label h₁ h₂
  | .mul, .convolution .norm, .convolution .flux, _, rfl =>
    rw [realizedBy_norm hx] at h₁
    rw [realizedBy_flux hy] at h₂
    rw [realizedBy_norm rfl, transform_chain rfl]
    exact Shape.normFlux_actsOn name label h₁ h₂

/-- A mapping that knows every leaf is all that compiling takes. -/
theorem compile_realized (options : CompileOptions) : ∀ m : Model V, m.WellKinded → m.PassesOn →
    (∀ l ∈ m.leaves, l.taggedName ∈ mapping.keys) →
      ∃ ev, compile mapping options m = .ok ev ∧
        ∀ params, m.RealizedBy options.checkShapes mapping params ev
  | .leaf l, hw, hp, hc => by
    have hl : l ∈ Expr.leaves (.leaf l : Model V) := List.mem_singleton.2 rfl
    obtain ⟨component, hm⟩ := OrderedMap.exists_get?_iff.2 (hc l hl)
    refine ⟨⟨component, leafEvaluation options.checkShapes component l.data⟩, ?_, ?_⟩
    · rw [compile, hm]
    · exact fun params => realizedBy_leaf hm hw fun make hg => hp l hl make hg component
  | .op id o r x y, ⟨hwx, hwy, hr⟩, hp, hc => by
    obtain ⟨hpx, hpy⟩ := passesOn_op hp
    obtain ⟨m₁, h₁, r₁⟩ := compile_realized options x hwx hpx fun l hl =>
      hc l (List.mem_append_left _ hl)
    obtain ⟨m₂, h₂, r₂⟩ := compile_realized options y hwy hpy fun l hl =>
      hc l (List.mem_append_right _ hl)
    let label := substitute (Expr.op id o r x y).name mapping
    refine ⟨⟨label, r.shape.evaluation label m₁ m₂⟩, ?_, fun params => ?_⟩
    · rw [compile, h₁, h₂]
      rfl
    · exact realizedBy_op hwx hwy hr (r₁ params) (r₂ params) label label

end Model

end Realized

/-- An additive model whose leaves are all in the mapping compiles, and its evaluator gives the
values of its spectrum and no others, whatever it is handed. -/
theorem Model.compile_additive [Add V] [Mul V] (m : Model V) (hm : m.Constructible)
    (hk : m.kind = .additive) (hp : m.PassesOn) (mapping : OrderedMap String String)
    (hc : ∀ l ∈ m.leaves, l.taggedName ∈ mapping.keys) (options : CompileOptions) :
    ∃ ev, Model.compile mapping options m = .ok ev ∧
      ∀ params grid flux? source? values, ev.call params grid flux? source? = .ok values ↔
        m.spectrum options.checkShapes mapping params grid = .ok values := by
  obtain ⟨ev, hev, hr⟩ := compile_realized options m hm.wellKinded hp hc
  exact ⟨ev, hev, fun params => (realizedBy_additive hk).1 (hr params)⟩

namespace Model

namespace Probed

def probe : NormFn Nat := fun source grid flux _ => do
  let values ← source grid
  .ok (List.zipWith (· + ·) values flux)

theorem probe_passesOn : NormFn.PassesOn probe :=
  fun grid _ _ => (Strict.ask grid).bind fun _ => .const _

def conv : Leaf (ModelData Nat) :=
  ⟨.fresh 0, "N", "N", ∅, .convolution .norm, ∅, .normConvolution fun _ => probe⟩

def factor : Leaf (ModelData Nat) :=
  ⟨.fresh 1, "M", "M", ∅, .multiplicative, ∅, .multiplicative fun _ grid _ => grid.tail⟩

def base : Leaf (ModelData Nat) :=
  ⟨.fresh 2, "A", "A", ∅, .additive, ∅, .additive fun _ grid _ => grid.tail⟩

def model : Model Nat :=
  .op (.fresh 4) .mul ⟨.additive, .normAdd⟩
    (.op (.fresh 3) .mul ⟨.convolution .norm, .normMul⟩ (.leaf conv) (.leaf factor)) (.leaf base)

def transform : Model Nat :=
  .op (.fresh 3) .mul ⟨.convolution .norm, .normMul⟩ (.leaf conv) (.leaf factor)

theorem constructible_conv : Constructible (.leaf conv) :=
  .make (show Model.make (.fresh 0) "N" "N" (.convolution .norm) []
    (.normConvolution fun _ => probe) ∅ = .ok (.leaf conv) from rfl)

theorem constructible_factor : Constructible (.leaf factor) :=
  .make (show Model.make (.fresh 1) "M" "M" .multiplicative []
    (.multiplicative fun _ grid _ => grid.tail) ∅ = .ok (.leaf factor) from rfl)

theorem constructible_transform : Constructible transform :=
  constructible_conv.combine constructible_factor
    (show combine (.fresh 3) .mul _ _ = .ok transform from rfl)

theorem constructible : model.Constructible := by
  have ha : Constructible (.leaf base) := .make (show Model.make (.fresh 2) "A" "A"
    .additive [] (.additive fun _ grid _ => grid.tail) ∅ = .ok (.leaf base) from rfl)
  exact constructible_transform.combine ha (show combine (.fresh 4) .mul _ _ = .ok model from rfl)

theorem passesOn : model.PassesOn := by
  intro l hl make hg component
  rcases hl with _ | ⟨_, _ | ⟨_, _ | ⟨_, h⟩⟩⟩
  · cases hg
    exact probe_passesOn
  · cases hg
  · cases hg
  · cases h

def mapping : OrderedMap String String :=
  .ofList (model.leaves.map fun l => (l.taggedName, l.name))

theorem covers : ∀ l ∈ model.leaves, l.taggedName ∈ mapping.keys := by
  intro l hl
  refine OrderedMap.mem_keys_ofList.2 ?_
  simpa using ⟨l, hl, rfl⟩

end Probed

/-- Bins hold the product of factor and emission, and the probe doubles it. -/
theorem compile_additive_probed :
    Probed.model.Constructible ∧ Probed.model.PassesOn ∧
      (∀ l ∈ Probed.model.leaves, l.taggedName ∈ Probed.mapping.keys) ∧
      Probed.model.spectrum true Probed.mapping ∅ [1, 2, 3] = .ok [8, 18] ∧
      ∃ ev, compile Probed.mapping {} Probed.model = .ok ev ∧
        ∀ params grid flux? source? values, ev.call params grid flux? source? = .ok values ↔
          Probed.model.spectrum true Probed.mapping params grid = .ok values :=
  ⟨Probed.constructible, Probed.passesOn, Probed.covers, rfl,
    compile_additive Probed.model Probed.constructible rfl Probed.passesOn Probed.mapping
      Probed.covers {}⟩

end Model

end SpectralAlgebra
