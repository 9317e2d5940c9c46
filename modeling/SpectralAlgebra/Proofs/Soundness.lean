import SpectralAlgebra.Proofs.Shapes

/-!
# Well-kinded models do not go wrong

The evaluator of an additive or a multiplicative model gives one value per bin, or it fails for a
reason that lies in a leaf (`Model.Fault`): a leaf's function returned the wrong number of values,
or a norm convolution's function failed on its own account. It is never for the way the evaluator
is put together: no flux or flux source is missing where one is needed, and no two arrays that are
combined have different lengths (`Model.evaluates_soundly`).

What holds depends on the kind. Convolutions are sound if the flux they are handed has one value
per bin, and norm convolutions if moreover their source is sound on every grid. That a norm
convolution's function is handed nothing else shows in that it may be replaced: functions that
agree on sound sources make evaluators that agree. So the evaluators of two models are followed
together, one with the functions replaced (`Evaluator.RunsAs`).
-/

namespace SpectralAlgebra

variable {V : Type}

/-- One value per bin, or an error of the admitted ones. -/
def Sound (P : EvaluationError → Prop) (grid : List V) : Outcome (List V) → Prop
  | .ok values => values.length = binCount grid
  | .error e => P e

/-- Errors that come of how evaluators are put together, and not of what a leaf returns. -/
def EvaluationError.isLinkage : EvaluationError → Bool
  | missingParameters _ => true
  | missingParameter .. => true
  | missingFlux _ => true
  | missingFluxSource _ => true
  | shapeMismatch .. => true
  | unmappedComponent _ => true
  | _ => false

/-! ## Norm convolutions with other functions -/

def Generator.mapNorm (φ : NormFn V → NormFn V) : Generator V → Generator V
  | normConvolution make => normConvolution fun component => φ (make component)
  | g => g

def Leaf.mapNorm (φ : NormFn V → NormFn V) (l : Leaf (ModelData V)) : Leaf (ModelData V) :=
  { l with data := { l.data with generator := l.data.generator.mapNorm φ } }

/-- The model with every norm convolution's function replaced. -/
def Model.mapNorm (φ : NormFn V → NormFn V) (m : Model V) : Model V :=
  m.mapLeaves (Leaf.mapNorm φ)

theorem Model.mapNorm_id (m : Model V) : m.mapNorm (fun f => f) = m := by
  have hl : Leaf.mapNorm (fun f : NormFn V => f) = fun l => l := by
    funext l
    rcases l with ⟨_, _, _, _, _, _, _ | _ | _ | _⟩ <;> rfl
  rw [mapNorm, hl, Expr.mapLeaves_id]

/-- A replacement of norm convolutions' functions that cannot be told from them by sources that are
sound on every grid and flux that has one value per bin. -/
def NormFn.SameOnSound (P : EvaluationError → Prop) (φ : NormFn V → NormFn V) : Prop :=
  ∀ f source grid flux own, (∀ g, Sound P g (source g)) → flux.length = binCount grid →
    φ f source grid flux own = f source grid flux own

/-! ## Faults -/

namespace Model

/-- The errors that lie in a leaf: it returned too few or too many values, or it is a norm
convolution and its function, handed a sound source, failed otherwise than that source does. -/
inductive Fault (m : Model V) (mapping : OrderedMap String String) (params : ParamValues V) :
    EvaluationError → Prop
  | binCount {l : Leaf (ModelData V)} {component : String} {grid : List V} {count : Nat}
      (hl : l ∈ m.leaves) (hc : mapping.get? l.taggedName = some component)
      (h : count ≠ SpectralAlgebra.binCount grid) :
      Fault m mapping params
        (.binCount component grid.length (SpectralAlgebra.binCount grid) count)
  | originated {l : Leaf (ModelData V)} {make : String → NormFn V} {component : String}
      {own : Params V} {source : Spectrum V} {grid flux : List V} {e : EvaluationError}
      (hl : l ∈ m.leaves) (hg : l.data.generator = .normConvolution make)
      (hc : mapping.get? l.taggedName = some component)
      (hown : lookupParams component l.data.parameters.keys params = .ok own)
      (hflux : flux.length = SpectralAlgebra.binCount grid)
      (hbins : ∀ g values, source g = .ok values →
        values.length = SpectralAlgebra.binCount g)
      (hfaults : ∀ g e, source g = .error e → Fault m mapping params e)
      (h : make component source grid flux own = .error e) (hnew : ∀ g, source g ≠ .error e) :
      Fault m mapping params e

/-- Every component that declares parameters has its parameter values, all it declares. -/
def Supplied (m : Model V) (mapping : OrderedMap String String) (params : ParamValues V) : Prop :=
  ∀ l ∈ m.leaves, ∀ component, mapping.get? l.taggedName = some component →
    l.data.parameters.keys ≠ [] → ∃ values, params.get? component = some values ∧
      ∀ name ∈ l.data.parameters.keys, name ∈ values.keys

/-- No norm convolution makes up an error of linkage: if its function fails with one, so does the
source it was handed. -/
def PassesLinkage (m : Model V) : Prop :=
  ∀ l ∈ m.leaves, ∀ make, l.data.generator = .normConvolution make →
    ∀ component source grid flux own e, make component source grid flux own = .error e →
      e.isLinkage → ∃ g, source g = .error e

theorem Fault.not_linkage {m : Model V} {mapping : OrderedMap String String}
    {params : ParamValues V} {e : EvaluationError} (h : m.Fault mapping params e)
    (hm : m.PassesLinkage) : e.isLinkage = false := by
  rcases h with _ | ⟨hl, hg, -, -, -, -, -, h, hnew⟩
  · rfl
  · rw [Bool.eq_false_iff]
    intro he
    obtain ⟨g, hs⟩ := hm _ hl _ hg _ _ _ _ _ _ h he
    exact hnew g hs

end Model

/-! ## Sound outcomes that are the same -/

/-- The first outcome is sound, and the second is the same. -/
structure Matches (P : EvaluationError → Prop) (grid : List V) (a b : Outcome (List V)) :
    Prop where
  sound : Sound P grid a
  eq : b = a

namespace Matches

variable {P : EvaluationError → Prop} {grid : List V} {a b : Outcome (List V)}

theorem bind {f g : List V → Outcome (List V)} (h : Matches P grid a b)
    (hf : ∀ values, values.length = binCount grid → Matches P grid (f values) (g values)) :
    Matches P grid (a >>= f) (b >>= g) := by
  obtain ⟨hs, rfl⟩ := h
  rcases b with e | values
  · exact ⟨hs, rfl⟩
  · exact hf values hs

theorem combine [Add V] [Mul V] (o : Operator) {xs ys : List V} (hx : xs.length = binCount grid)
    (hy : ys.length = binCount grid) :
    Matches P grid (Bins.combine o xs ys) (Bins.combine o xs ys) := by
  refine ⟨?_, rfl⟩
  rw [Bins.combine_eq, if_pos (hx.trans hy.symm)]
  simp [Sound, List.length_zipWith, hx, hy]

theorem combine_bind [Add V] [Mul V] (o : Operator) {a' b' : Outcome (List V)}
    (h : Matches P grid a b) (h' : Matches P grid a' b') :
    Matches P grid (a >>= fun xs => a' >>= fun ys => Bins.combine o xs ys)
      (b >>= fun xs => b' >>= fun ys => Bins.combine o xs ys) :=
  h.bind fun _ hx => h'.bind fun _ hy => combine o hx hy

end Matches

/-- Two evaluators run alike and soundly, if they are handed what evaluators of the kind need. -/
def Evaluator.RunsAs (P : EvaluationError → Prop) (params : ParamValues V) :
    ModelKind → Evaluator V → Evaluator V → Prop
  | .additive, ev, ev' | .multiplicative, ev, ev' =>
    ∀ grid, Matches P grid (ev.eval params grid) (ev'.eval params grid)
  | .convolution .flux, ev, ev' => ∀ grid flux, flux.length = binCount grid →
    Matches P grid (ev.call params grid (some flux) none) (ev'.call params grid (some flux) none)
  | .convolution .norm, ev, ev' => ∀ grid flux source source', flux.length = binCount grid →
    (∀ g, Matches P g (source params g) (source' params g)) →
      Matches P grid (ev.call params grid (some flux) (some source))
        (ev'.call params grid (some flux) (some source'))

/-! ## Shapes -/

namespace Shape

variable [Add V] [Mul V] {P : EvaluationError → Prop} {params : ParamValues V}
  {m₁ m₂ m₁' m₂' : Evaluator V} (name name' label label' : String)

theorem sum_runsAs (h₁ : Evaluator.RunsAs P params .additive m₁ m₁')
    (h₂ : Evaluator.RunsAs P params .additive m₂ m₂') :
    Evaluator.RunsAs P params .additive ⟨name, addAdd.evaluation label m₁ m₂⟩
      ⟨name', addAdd.evaluation label' m₁' m₂'⟩ :=
  fun grid => (h₁ grid).combine_bind .add (h₂ grid)

/-- Additive and multiplicative evaluators are sound in the same way. -/
theorem product_runsAs (h₁ : Evaluator.RunsAs P params .multiplicative m₁ m₁')
    (h₂ : Evaluator.RunsAs P params .multiplicative m₂ m₂') :
    Evaluator.RunsAs P params .multiplicative ⟨name, product.evaluation label m₁ m₂⟩
      ⟨name', product.evaluation label' m₁' m₂'⟩ :=
  fun grid => (h₁ grid).combine_bind .mul (h₂ grid)

theorem mulFlux_runsAs (h₁ : Evaluator.RunsAs P params .multiplicative m₁ m₁')
    (h₂ : Evaluator.RunsAs P params (.convolution .flux) m₂ m₂') :
    Evaluator.RunsAs P params (.convolution .flux) ⟨name, mulFlux.evaluation label m₁ m₂⟩
      ⟨name', mulFlux.evaluation label' m₁' m₂'⟩ :=
  fun grid flux hflux => (h₁ grid).combine_bind .mul (h₂ grid flux hflux)

theorem mulNorm_runsAs (h₁ : Evaluator.RunsAs P params .multiplicative m₁ m₁')
    (h₂ : Evaluator.RunsAs P params (.convolution .norm) m₂ m₂') :
    Evaluator.RunsAs P params (.convolution .norm) ⟨name, mulNorm.evaluation label m₁ m₂⟩
      ⟨name', mulNorm.evaluation label' m₁' m₂'⟩ :=
  fun grid flux source source' hflux hs =>
    (h₁ grid).combine_bind .mul (h₂ grid flux source source' hflux hs)

theorem fluxAdd_runsAs (h₁ : Evaluator.RunsAs P params (.convolution .flux) m₁ m₁')
    (h₂ : Evaluator.RunsAs P params .additive m₂ m₂') :
    Evaluator.RunsAs P params .additive ⟨name, fluxAdd.evaluation label m₁ m₂⟩
      ⟨name', fluxAdd.evaluation label' m₁' m₂'⟩ :=
  fun grid => (h₂ grid).bind fun flux hflux => h₁ grid flux hflux

theorem fluxMul_runsAs (h₁ : Evaluator.RunsAs P params (.convolution .flux) m₁ m₁')
    (h₂ : Evaluator.RunsAs P params .multiplicative m₂ m₂') :
    Evaluator.RunsAs P params (.convolution .flux) ⟨name, fluxMul.evaluation label m₁ m₂⟩
      ⟨name', fluxMul.evaluation label' m₁' m₂'⟩ :=
  fun grid _ hflux => (h₂ grid).bind fun _ hx =>
    (Matches.combine .mul hx hflux).bind fun flux hflux => h₁ grid flux hflux

theorem fluxFlux_runsAs (h₁ : Evaluator.RunsAs P params (.convolution .flux) m₁ m₁')
    (h₂ : Evaluator.RunsAs P params (.convolution .flux) m₂ m₂') :
    Evaluator.RunsAs P params (.convolution .flux) ⟨name, fluxFlux.evaluation label m₁ m₂⟩
      ⟨name', fluxFlux.evaluation label' m₁' m₂'⟩ :=
  fun grid flux hflux => (h₂ grid flux hflux).bind fun flux hflux => h₁ grid flux hflux

theorem fluxNorm_runsAs (h₁ : Evaluator.RunsAs P params (.convolution .flux) m₁ m₁')
    (h₂ : Evaluator.RunsAs P params (.convolution .norm) m₂ m₂') :
    Evaluator.RunsAs P params (.convolution .norm) ⟨name, fluxNorm.evaluation label m₁ m₂⟩
      ⟨name', fluxNorm.evaluation label' m₁' m₂'⟩ :=
  fun grid flux source source' hflux hs =>
    (h₂ grid flux source source' hflux hs).bind fun flux hflux => h₁ grid flux hflux

/-- The source handed to the convolution is the additive evaluator. -/
theorem normAdd_runsAs (h₁ : Evaluator.RunsAs P params (.convolution .norm) m₁ m₁')
    (h₂ : Evaluator.RunsAs P params .additive m₂ m₂') :
    Evaluator.RunsAs P params .additive ⟨name, normAdd.evaluation label m₁ m₂⟩
      ⟨name', normAdd.evaluation label' m₁' m₂'⟩ :=
  fun grid => (h₂ grid).bind fun flux hflux => h₁ grid flux m₂.eval m₂'.eval hflux h₂

/-- The source handed on is a product, bin by bin, of arrays that have one value per bin. -/
theorem normMul_runsAs (h₁ : Evaluator.RunsAs P params (.convolution .norm) m₁ m₁')
    (h₂ : Evaluator.RunsAs P params .multiplicative m₂ m₂') :
    Evaluator.RunsAs P params (.convolution .norm) ⟨name, normMul.evaluation label m₁ m₂⟩
      ⟨name', normMul.evaluation label' m₁' m₂'⟩ :=
  fun grid _ _ _ hflux hs => (h₂ grid).bind fun _ hx =>
    (Matches.combine .mul hx hflux).bind fun flux hflux =>
      h₁ grid flux _ _ hflux fun g => (h₂ g).combine_bind .mul (hs g)

/-- The source handed on is the flux convolution on flux that has one value per bin. -/
theorem normFlux_runsAs (h₁ : Evaluator.RunsAs P params (.convolution .norm) m₁ m₁')
    (h₂ : Evaluator.RunsAs P params (.convolution .flux) m₂ m₂') :
    Evaluator.RunsAs P params (.convolution .norm) ⟨name, normFlux.evaluation label m₁ m₂⟩
      ⟨name', normFlux.evaluation label' m₁' m₂'⟩ :=
  fun grid flux _ _ hflux hs => (h₂ grid flux hflux).bind fun flux hflux =>
    h₁ grid flux _ _ hflux fun g => (hs g).bind fun inner hinner => h₂ g inner hinner

theorem runsAs {o : Operator} {k₁ k₂ : ModelKind} {r : Resolution}
    (hr : Resolution.infer o k₁ k₂ = .ok r) (h₁ : Evaluator.RunsAs P params k₁ m₁ m₁')
    (h₂ : Evaluator.RunsAs P params k₂ m₂ m₂') :
    Evaluator.RunsAs P params r.kind ⟨name, r.shape.evaluation label m₁ m₂⟩
      ⟨name', r.shape.evaluation label' m₁' m₂'⟩ := by
  match o, k₁, k₂, r, hr with
  | .add, .additive, .additive, _, rfl => exact sum_runsAs name name' label label' h₁ h₂
  | .mul, .additive, .multiplicative, _, rfl
  | .mul, .multiplicative, .additive, _, rfl
  | .mul, .multiplicative, .multiplicative, _, rfl =>
    exact product_runsAs name name' label label' h₁ h₂
  | .mul, .multiplicative, .convolution .flux, _, rfl =>
    exact mulFlux_runsAs name name' label label' h₁ h₂
  | .mul, .multiplicative, .convolution .norm, _, rfl =>
    exact mulNorm_runsAs name name' label label' h₁ h₂
  | .mul, .convolution .flux, .additive, _, rfl =>
    exact fluxAdd_runsAs name name' label label' h₁ h₂
  | .mul, .convolution .flux, .multiplicative, _, rfl =>
    exact fluxMul_runsAs name name' label label' h₁ h₂
  | .mul, .convolution .flux, .convolution .flux, _, rfl =>
    exact fluxFlux_runsAs name name' label label' h₁ h₂
  | .mul, .convolution .flux, .convolution .norm, _, rfl =>
    exact fluxNorm_runsAs name name' label label' h₁ h₂
  | .mul, .convolution .norm, .additive, _, rfl =>
    exact normAdd_runsAs name name' label label' h₁ h₂
  | .mul, .convolution .norm, .multiplicative, _, rfl =>
    exact normMul_runsAs name name' label label' h₁ h₂
  | .mul, .convolution .norm, .convolution .flux, _, rfl =>
    exact normFlux_runsAs name name' label label' h₁ h₂

end Shape

/-! ## Leaves -/

namespace Model

section Leaves

variable {m : Model V} {mapping : OrderedMap String String} {params : ParamValues V}
  {l : Leaf (ModelData V)} {component : String}

theorem Supplied.lookupParams_eq_ok (h : m.Supplied mapping params) (hl : l ∈ m.leaves)
    (hc : mapping.get? l.taggedName = some component) :
    ∃ own, lookupParams component l.data.parameters.keys params = .ok own := by
  by_cases hd : l.data.parameters.keys = []
  · rw [hd]
    exact exists_lookupParams_nil component params
  · obtain ⟨values, hv, hall⟩ := h l hl component hc hd
    exact ⟨values, lookupParams_of_get? hv hall⟩

theorem checkBins_sound (hl : l ∈ m.leaves) (hc : mapping.get? l.taggedName = some component)
    (grid values : List V) :
    Sound (m.Fault mapping params) grid (checkBins true component grid values) := by
  unfold checkBins
  by_cases h : values.length = binCount grid
  · simp [h, Sound]
  · simpa [h, Sound] using Fault.binCount hl hc h

/-- A norm convolution's function is handed a sound source, so that what it fails with is a fault
even if it comes from there. -/
theorem normFn_sound {make : String → NormFn V} {own : Params V} {source : Spectrum V}
    {grid flux : List V} (hl : l ∈ m.leaves) (hg : l.data.generator = .normConvolution make)
    (hc : mapping.get? l.taggedName = some component)
    (hown : lookupParams component l.data.parameters.keys params = .ok own)
    (hflux : flux.length = binCount grid)
    (hs : ∀ g, Sound (m.Fault mapping params) g (source g)) :
    Sound (m.Fault mapping params) grid
      (make component source grid flux own >>= fun values =>
        checkBins true component grid values) := by
  rcases h : make component source grid flux own with e | values
  · show m.Fault mapping params e
    by_cases hnew : ∃ g, source g = .error e
    · obtain ⟨g, hge⟩ := hnew
      have hsg := hs g
      rw [hge] at hsg
      exact hsg
    · refine .originated hl hg hc hown hflux (fun g values hv => ?_) (fun g e he => ?_) h
        fun g hge => hnew ⟨g, hge⟩
      · have hsg := hs g
        rw [hv] at hsg
        exact hsg
      · have hsg := hs g
        rw [he] at hsg
        exact hsg
  · exact checkBins_sound hl hc grid values

theorem leaf_runsAs {φ : NormFn V → NormFn V} (hs : m.Supplied mapping params)
    (hφ : NormFn.SameOnSound (m.Fault mapping params) φ) (hl : l ∈ m.leaves)
    (hk : l.data.generator.kind = l.data.kind)
    (hc : mapping.get? l.taggedName = some component) :
    Evaluator.RunsAs (m.Fault mapping params) params l.data.kind
      ⟨component, leafEvaluation true component l.data⟩
      ⟨component, leafEvaluation true component (l.mapNorm φ).data⟩ := by
  obtain ⟨own, hown⟩ := hs.lookupParams_eq_ok hl hc
  rw [← hk]
  rcases hg : l.data.generator with make | make | make | make
  · intro grid
    simp only [Evaluator.eval, leafEvaluation, Leaf.mapNorm, Generator.mapNorm, hg, hown]
    exact ⟨checkBins_sound hl hc grid _, rfl⟩
  · intro grid
    simp only [Evaluator.eval, leafEvaluation, Leaf.mapNorm, Generator.mapNorm, hg, hown]
    exact ⟨checkBins_sound hl hc grid _, rfl⟩
  · intro grid flux hflux
    simp only [leafEvaluation, Leaf.mapNorm, Generator.mapNorm, hg, hown]
    exact ⟨checkBins_sound hl hc grid _, rfl⟩
  · intro grid flux source source' hflux hsource
    have heq : source' params = source params := funext fun g => (hsource g).eq
    have hsound := fun g => (hsource g).sound
    simp only [leafEvaluation, Leaf.mapNorm, Generator.mapNorm, hg, hown]
    refine ⟨normFn_sound hl hg hc hown hflux hsound, ?_⟩
    change (φ (make component) (source' params) grid flux own >>= _)
      = (make component (source params) grid flux own >>= _)
    rw [heq, hφ _ _ _ _ _ hsound hflux]

theorem compile_matches [Add V] [Mul V] {options : CompileOptions} {φ : NormFn V → NormFn V}
    {ev ev' : Evaluator V} (hm : m.WellKinded)
    (hk : m.kind = .additive ∨ m.kind = .multiplicative) (ho : options.checkShapes = true)
    (hs : m.Supplied mapping params) (hφ : NormFn.SameOnSound (m.Fault mapping params) φ)
    (hev : compile mapping options m = .ok ev)
    (hev' : compile mapping options (m.mapNorm φ) = .ok ev') (grid : List V) :
    Matches (m.Fault mapping params) grid (ev.eval params grid) (ev'.eval params grid) := by
  have hleaf : ∀ l ∈ m.leaves, l.data.generator.kind = l.data.kind → ∀ component component',
      mapping.get? l.taggedName = some component →
        mapping.get? (l.mapNorm φ).taggedName = some component' →
          Evaluator.RunsAs (m.Fault mapping params) params l.data.kind
            ⟨component, leafEvaluation options.checkShapes component l.data⟩
            ⟨component', leafEvaluation options.checkShapes component' (l.mapNorm φ).data⟩ := by
    intro l hl hlk component component' hc hc'
    obtain rfl := Option.some.inj (hc.symm.trans hc')
    rw [ho]
    exact leaf_runsAs hs hφ hl hlk hc
  have h : Evaluator.RunsAs (m.Fault mapping params) params m.kind ev ev' :=
    compile_relates (fun hr _ _ _ _ h₁ h₂ _ _ _ _ => Shape.runsAs _ _ _ _ hr h₁ h₂) hm hleaf
      hev hev'
  rcases hk with hk | hk
  · rw [hk] at h
    exact h grid
  · rw [hk] at h
    exact h grid

end Leaves

/-- An additive or a multiplicative model compiles with the check of bins to an evaluator that gives
one value per bin, or fails for a reason that lies in a leaf and, unless a norm convolution makes
such errors up, is not how the evaluator is put together. Its norm convolutions are handed flux
with one value per bin and sources that are sound in the same way on every grid: it makes no
difference what their functions do with any other. -/
theorem evaluates_soundly [Add V] [Mul V] (m : Model V) (hm : m.Constructible)
    (hk : m.kind = .additive ∨ m.kind = .multiplicative) (mapping : OrderedMap String String)
    (hc : ∀ l ∈ m.leaves, l.taggedName ∈ mapping.keys) (options : CompileOptions)
    (ho : options.checkShapes = true) :
    ∃ ev, compile mapping options m = .ok ev ∧ ∀ params, m.Supplied mapping params →
      (∀ grid, Sound (m.Fault mapping params) grid (ev.eval params grid)) ∧
      (m.PassesLinkage → ∀ grid e, ev.eval params grid = .error e → e.isLinkage = false) ∧
      ∀ φ, NormFn.SameOnSound (m.Fault mapping params) φ →
        ∃ ev', compile mapping options (m.mapNorm φ) = .ok ev' ∧
          ∀ grid, ev'.eval params grid = ev.eval params grid := by
  obtain ⟨ev, hev⟩ := exists_compile options hc
  refine ⟨ev, hev, fun params hs => ?_⟩
  have hsound : ∀ grid, Sound (m.Fault mapping params) grid (ev.eval params grid) := by
    have hid : compile mapping options (m.mapNorm fun f => f) = .ok ev := by
      rw [mapNorm_id]
      exact hev
    have hsame : NormFn.SameOnSound (m.Fault mapping params) fun f : NormFn V => f :=
      fun _ _ _ _ _ _ _ => rfl
    exact fun grid => (compile_matches hm.wellKinded hk ho hs hsame hev hid grid).sound
  refine ⟨hsound, fun hp grid e he => ?_, fun φ hφ => ?_⟩
  · have h := hsound grid
    rw [he] at h
    exact Fault.not_linkage h hp
  · have hc' : ∀ l ∈ (m.mapNorm φ).leaves, l.taggedName ∈ mapping.keys := by
      intro l hl
      rw [mapNorm, Expr.leaves_mapLeaves] at hl
      obtain ⟨l', hl', rfl⟩ := List.mem_map.1 hl
      exact hc l' hl'
    obtain ⟨ev', hev'⟩ := exists_compile options hc'
    exact ⟨ev', hev', fun grid =>
      (compile_matches hm.wellKinded hk ho hs hφ hev hev' grid).eq⟩

namespace Declared

def amount : Parameter :=
  .leaf ⟨.fresh 5, "k", "k", ∅, ⟨1, .fixed 1, none⟩⟩

def base : Leaf (ModelData Nat) :=
  ⟨.fresh 6, "A", "A", ∅, .additive, .singleton "k" amount,
    .additive fun _ grid own => grid.tail.map ((own.get? "k").getD 0 * ·)⟩

def model : Model Nat :=
  .op (.fresh 7) .mul ⟨.additive, .normAdd⟩ (.leaf Probed.conv) (.leaf base)

def mapping : OrderedMap String String :=
  .ofList (model.leaves.map fun l => (l.taggedName, l.name))

def params : ParamValues Nat := .singleton "A" (.singleton "k" 5)

/-- The function on flux with one value per bin, and nothing on any other. -/
def guarded (f : NormFn Nat) : NormFn Nat := fun source grid flux own =>
  if flux.length = binCount grid then f source grid flux own else .ok []

theorem constructible : model.Constructible := by
  have hn : Constructible (.leaf Probed.conv) := .make (show Model.make (.fresh 0) "N" "N"
    (.convolution .norm) [] (.normConvolution fun _ => Probed.probe) ∅ = .ok _ from rfl)
  have ha : Constructible (.leaf base) := .make (show Model.make (.fresh 6) "A" "A" .additive
    [("k", amount)] base.data.generator ∅ = .ok (.leaf base) from rfl)
  exact hn.combine ha (show combine (.fresh 7) .mul _ _ = .ok model from rfl)

theorem covers : ∀ l ∈ model.leaves, l.taggedName ∈ mapping.keys := by
  intro l hl
  refine OrderedMap.mem_keys_ofList.2 ?_
  simpa using ⟨l, hl, rfl⟩

theorem supplied : model.Supplied mapping params := by
  intro l hl component hc hd
  rcases hl with _ | ⟨_, _ | ⟨_, h⟩⟩
  · exact absurd rfl hd
  · have hb : mapping.get? base.taggedName = some "A" := by decide +kernel
    obtain rfl := Option.some.inj (hb.symm.trans hc)
    refine ⟨.singleton "k" 5, rfl, fun name hn => hn⟩
  · cases h

theorem passesLinkage : model.PassesLinkage := by
  intro l hl make hg component source grid flux own e h he
  rcases hl with _ | ⟨_, _ | ⟨_, h⟩⟩
  · cases hg
    rcases hs : source grid with e' | values
    · refine ⟨grid, hs.trans ?_⟩
      simp only [Probed.probe, hs] at h
      exact h
    · simp only [Probed.probe, hs] at h
      cases h
  · cases hg
  · cases h

theorem sameOnSound : NormFn.SameOnSound (model.Fault mapping params) guarded :=
  fun _ _ _ _ _ _ hflux => if_pos hflux

end Declared

/-- A probe on an emission with a parameter: flux and source are the emission's bins. -/
theorem evaluates_soundly_declared :
    Declared.model.Constructible ∧ Declared.model.kind = .additive ∧
      (∀ l ∈ Declared.model.leaves, l.taggedName ∈ Declared.mapping.keys) ∧
      Declared.model.Supplied Declared.mapping Declared.params ∧ Declared.model.PassesLinkage ∧
      NormFn.SameOnSound (Declared.model.Fault Declared.mapping Declared.params)
        Declared.guarded ∧
      ∃ ev, compile Declared.mapping {} Declared.model = .ok ev ∧
        ev.eval Declared.params [1, 2, 3] = .ok [20, 30] ∧
        (∀ grid e, ev.eval Declared.params grid = .error e → e.isLinkage = false) ∧
        ∃ ev', compile Declared.mapping {} (Declared.model.mapNorm Declared.guarded) = .ok ev' ∧
          ∀ grid, ev'.eval Declared.params grid = ev.eval Declared.params grid := by
  obtain ⟨ev, hev, h⟩ := evaluates_soundly Declared.model Declared.constructible (.inl rfl)
    Declared.mapping Declared.covers {} rfl
  obtain ⟨-, hlink, hsame⟩ := h Declared.params Declared.supplied
  refine ⟨Declared.constructible, rfl, Declared.covers, Declared.supplied,
    Declared.passesLinkage, Declared.sameOnSound, ev, hev, ?_, hlink Declared.passesLinkage,
    hsame Declared.guarded Declared.sameOnSound⟩
  cases hev
  rfl

end Model

end SpectralAlgebra
