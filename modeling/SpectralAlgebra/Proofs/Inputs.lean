import SpectralAlgebra.Proofs.Shapes

/-!
# What evaluators make of flux and source

The kind of a model says what its evaluator asks for (`Model.inputs_of_kind`): an additive or a
multiplicative one takes no notice of flux and source, one of a flux convolution takes no notice of
the source and fails without flux, and one of a norm convolution fails without either. Of its
source a norm convolution's evaluator takes the values only, as long as the functions of its leaves
pass failures on: sources that agree are as good as each other (`Model.compile_reads`).
-/

namespace SpectralAlgebra

variable {V : Type}

/-! ## Outcomes without a value -/

def Fails {α : Type} (a : Outcome α) : Prop := ∃ e, a = .error e

namespace Fails

variable {α β : Type} {a b : Outcome α}

theorem bind (h : Fails a) (f : α → Outcome β) : Fails (a >>= f) := by
  obtain ⟨e, rfl⟩ := h
  exact ⟨e, rfl⟩

theorem bind_right (a : Outcome α) {f : α → Outcome β} (h : ∀ x, Fails (f x)) :
    Fails (a >>= f) := by
  rcases a with e | x
  · exact ⟨e, rfl⟩
  · exact h x

theorem agree (ha : Fails a) (hb : Fails b) : Agree a b := by
  obtain ⟨e, rfl⟩ := ha
  obtain ⟨e', rfl⟩ := hb
  intro v
  constructor <;> intro h <;> cases h

end Fails

theorem needFlux_none_fails (label : String) : Fails (needFlux (V := V) label none) := ⟨_, rfl⟩

theorem needSource_none_fails (label : String) :
    Fails (needSource (S := FluxSource V) label none) := ⟨_, rfl⟩

namespace Evaluator

/-- The evaluator asks for what evaluators of the kind ask for, and for nothing else. -/
def Heeds : ModelKind → Evaluator V → Prop
  | .additive, ev | .multiplicative, ev =>
    ∀ params grid flux? source?, ev.call params grid flux? source? = ev.eval params grid
  | .convolution .flux, ev =>
    (∀ params grid flux? source?,
      ev.call params grid flux? source? = ev.call params grid flux? none) ∧
    ∀ params grid source?, Fails (ev.call params grid none source?)
  | .convolution .norm, ev =>
    (∀ params grid source?, Fails (ev.call params grid none source?)) ∧
    ∀ params grid flux?, Fails (ev.call params grid flux? none)

/-- An evaluator of a norm convolution takes nothing but values from its source. -/
def Reads (params : ParamValues V) : ModelKind → Evaluator V → Prop
  | .convolution .norm, ev => ∀ grid flux? source source',
    (∀ g, Agree (source params g) (source' params g)) →
      Agree (ev.call params grid flux? (some source)) (ev.call params grid flux? (some source'))
  | _, _ => True

end Evaluator

/-! ## Shapes -/

namespace Shape

variable [Add V] [Mul V] {m₁ m₂ : Evaluator V} (name label : String)

theorem mulFlux_heeds (h₂ : m₂.Heeds (.convolution .flux)) :
    Evaluator.Heeds (.convolution .flux) ⟨name, mulFlux.evaluation label m₁ m₂⟩ :=
  ⟨fun _ _ _ _ => rfl, fun params grid _ => Fails.bind_right _ fun _ =>
    (h₂.2 params grid none).bind _⟩

theorem mulNorm_heeds (h₂ : m₂.Heeds (.convolution .norm)) :
    Evaluator.Heeds (.convolution .norm) ⟨name, mulNorm.evaluation label m₁ m₂⟩ :=
  ⟨fun params grid source? => Fails.bind_right _ fun _ => (h₂.1 params grid source?).bind _,
    fun params grid flux? => Fails.bind_right _ fun _ => (h₂.2 params grid flux?).bind _⟩

theorem fluxMul_heeds :
    Evaluator.Heeds (.convolution .flux) ⟨name, fluxMul.evaluation label m₁ m₂⟩ :=
  ⟨fun _ _ _ _ => rfl, fun _ _ _ => Fails.bind_right _ fun _ =>
    (needFlux_none_fails label).bind _⟩

theorem fluxFlux_heeds (h₂ : m₂.Heeds (.convolution .flux)) :
    Evaluator.Heeds (.convolution .flux) ⟨name, fluxFlux.evaluation label m₁ m₂⟩ :=
  ⟨fun _ _ _ _ => rfl, fun params grid _ => (h₂.2 params grid none).bind _⟩

theorem fluxNorm_heeds (h₂ : m₂.Heeds (.convolution .norm)) :
    Evaluator.Heeds (.convolution .norm) ⟨name, fluxNorm.evaluation label m₁ m₂⟩ :=
  ⟨fun params grid source? => (h₂.1 params grid source?).bind _,
    fun params grid flux? => (h₂.2 params grid flux?).bind _⟩

theorem normMul_heeds :
    Evaluator.Heeds (.convolution .norm) ⟨name, normMul.evaluation label m₁ m₂⟩ :=
  ⟨fun _ _ _ => Fails.bind_right _ fun _ => (needFlux_none_fails label).bind _,
    fun _ _ _ => Fails.bind_right _ fun _ => Fails.bind_right _ fun _ => Fails.bind_right _ fun _ =>
      (needSource_none_fails label).bind _⟩

theorem normFlux_heeds (h₂ : m₂.Heeds (.convolution .flux)) :
    Evaluator.Heeds (.convolution .norm) ⟨name, normFlux.evaluation label m₁ m₂⟩ :=
  ⟨fun params grid _ => Fails.bind_right _ fun _ => (h₂.2 params grid none).bind _,
    fun _ _ _ => (needSource_none_fails label).bind _⟩

theorem heeds {o : Operator} {k₁ k₂ : ModelKind} {r : Resolution}
    (hr : Resolution.infer o k₁ k₂ = .ok r) (h₂ : m₂.Heeds k₂) :
    Evaluator.Heeds r.kind ⟨name, r.shape.evaluation label m₁ m₂⟩ := by
  match o, k₁, k₂, r, hr with
  | .add, .additive, .additive, _, rfl
  | .mul, .additive, .multiplicative, _, rfl
  | .mul, .multiplicative, .additive, _, rfl
  | .mul, .multiplicative, .multiplicative, _, rfl
  | .mul, .convolution .flux, .additive, _, rfl
  | .mul, .convolution .norm, .additive, _, rfl => exact fun _ _ _ _ => rfl
  | .mul, .multiplicative, .convolution .flux, _, rfl => exact mulFlux_heeds name label h₂
  | .mul, .multiplicative, .convolution .norm, _, rfl => exact mulNorm_heeds name label h₂
  | .mul, .convolution .flux, .multiplicative, _, rfl => exact fluxMul_heeds name label
  | .mul, .convolution .flux, .convolution .flux, _, rfl => exact fluxFlux_heeds name label h₂
  | .mul, .convolution .flux, .convolution .norm, _, rfl => exact fluxNorm_heeds name label h₂
  | .mul, .convolution .norm, .multiplicative, _, rfl => exact normMul_heeds name label
  | .mul, .convolution .norm, .convolution .flux, _, rfl => exact normFlux_heeds name label h₂

variable {params : ParamValues V}

theorem mulNorm_reads (h₂ : m₂.Reads params (.convolution .norm)) :
    Evaluator.Reads params (.convolution .norm) ⟨name, mulNorm.evaluation label m₁ m₂⟩ :=
  fun grid flux? source source' hs => (Agree.refl _).bind fun _ =>
    (h₂ grid flux? source source' hs).bind_left _

theorem fluxNorm_reads (h₂ : m₂.Reads params (.convolution .norm)) :
    Evaluator.Reads params (.convolution .norm) ⟨name, fluxNorm.evaluation label m₁ m₂⟩ :=
  fun grid flux? source source' hs => (h₂ grid flux? source source' hs).bind_left _

theorem normMul_reads (h₁ : m₁.Reads params (.convolution .norm)) :
    Evaluator.Reads params (.convolution .norm) ⟨name, normMul.evaluation label m₁ m₂⟩ :=
  fun grid _ _ _ hs => (Agree.refl _).bind fun _ => (Agree.refl _).bind fun _ =>
    (Agree.refl _).bind fun flux => h₁ grid (some flux) _ _ fun g =>
      (Agree.refl _).bind fun _ => (hs g).bind_left _

theorem normFlux_reads (h₁ : m₁.Reads params (.convolution .norm)) :
    Evaluator.Reads params (.convolution .norm) ⟨name, normFlux.evaluation label m₁ m₂⟩ :=
  fun grid _ _ _ hs => (Agree.refl _).bind fun flux =>
    h₁ grid (some flux) _ _ fun g => (hs g).bind_left _

theorem reads {o : Operator} {k₁ k₂ : ModelKind} {r : Resolution}
    (hr : Resolution.infer o k₁ k₂ = .ok r) (h₁ : m₁.Reads params k₁)
    (h₂ : m₂.Reads params k₂) :
    Evaluator.Reads params r.kind ⟨name, r.shape.evaluation label m₁ m₂⟩ := by
  match o, k₁, k₂, r, hr with
  | .add, .additive, .additive, _, rfl
  | .mul, .additive, .multiplicative, _, rfl
  | .mul, .multiplicative, .additive, _, rfl
  | .mul, .multiplicative, .multiplicative, _, rfl
  | .mul, .multiplicative, .convolution .flux, _, rfl
  | .mul, .convolution .flux, .additive, _, rfl
  | .mul, .convolution .flux, .multiplicative, _, rfl
  | .mul, .convolution .flux, .convolution .flux, _, rfl
  | .mul, .convolution .norm, .additive, _, rfl => exact trivial
  | .mul, .multiplicative, .convolution .norm, _, rfl => exact mulNorm_reads name label h₂
  | .mul, .convolution .flux, .convolution .norm, _, rfl => exact fluxNorm_reads name label h₂
  | .mul, .convolution .norm, .multiplicative, _, rfl => exact normMul_reads name label h₁
  | .mul, .convolution .norm, .convolution .flux, _, rfl => exact normFlux_reads name label h₁

end Shape

/-! ## Models -/

namespace Model

variable {l : Leaf (ModelData V)} (check : Bool) (component : String)

theorem leaf_heeds (hk : l.data.generator.kind = l.data.kind) :
    Evaluator.Heeds l.data.kind ⟨component, leafEvaluation check component l.data⟩ := by
  rw [← hk]
  unfold leafEvaluation
  rcases l.data.generator with make | make | make | make
  · exact fun _ _ _ _ => rfl
  · exact fun _ _ _ _ => rfl
  · exact ⟨fun _ _ _ _ => rfl, fun _ _ _ => Fails.bind_right _ fun _ =>
      (needFlux_none_fails component).bind _⟩
  · exact ⟨fun _ _ _ => Fails.bind_right _ fun _ => (needFlux_none_fails component).bind _,
      fun _ _ _ => Fails.bind_right _ fun _ => Fails.bind_right _ fun _ =>
        (needSource_none_fails component).bind _⟩

theorem leaf_reads (params : ParamValues V) (hk : l.data.generator.kind = l.data.kind)
    (hp : ∀ make, l.data.generator = .normConvolution make → NormFn.PassesOn (make component)) :
    Evaluator.Reads params l.data.kind
      ⟨component, leafEvaluation check component l.data⟩ := by
  rw [← hk]
  unfold leafEvaluation
  rcases hg : l.data.generator with make | make | make | make
  · exact trivial
  · exact trivial
  · exact trivial
  · intro grid flux? source source' hs
    exact (Agree.refl _).bind fun own => (Agree.refl _).bind fun flux =>
      ((hp make hg grid flux own).agree hs).bind_left _

variable [Add V] [Mul V] {mapping : OrderedMap String String} {options : CompileOptions}
  {m : Model V} {ev : Evaluator V}

theorem compile_heeds (hm : m.WellKinded) (hev : compile mapping options m = .ok ev) :
    ev.Heeds m.kind :=
  compile_induction (P := Evaluator.Heeds)
    (fun hr _ _ _ h₂ name label => Shape.heeds name label hr h₂) hm
    (fun _ _ hk component _ => leaf_heeds options.checkShapes component hk) hev

theorem compile_reads (hm : m.WellKinded) (hp : m.PassesOn) (params : ParamValues V)
    (hev : compile mapping options m = .ok ev) : ev.Reads params m.kind :=
  compile_induction (P := Evaluator.Reads params)
    (fun hr _ _ h₁ h₂ name label => Shape.reads name label hr h₁ h₂) hm
    (fun l hl hk component _ => leaf_reads options.checkShapes component params hk
      fun make hg => hp l hl make hg component) hev

/-- A model compiles if the mapping knows its leaves. Its evaluator takes no notice of flux and
source if the model is additive or multiplicative, and none of the source if it is a flux
convolution. A convolution's fails without flux, and a norm convolution's also without a source. -/
theorem inputs_of_kind (m : Model V) (hm : m.Constructible) (mapping : OrderedMap String String)
    (options : CompileOptions) :
    ((∀ l ∈ m.leaves, l.taggedName ∈ mapping.keys) →
      ∃ ev, compile mapping options m = .ok ev) ∧
    ∀ ev, compile mapping options m = .ok ev → ∀ params grid,
      (m.kind = .additive ∨ m.kind = .multiplicative → ∀ flux? source? flux?' source?',
        ev.call params grid flux? source? = ev.call params grid flux?' source?') ∧
      (m.kind = .convolution .flux → ∀ flux? source? source?',
        ev.call params grid flux? source? = ev.call params grid flux? source?') ∧
      (m.kind.isConvolution → ∀ source?, Fails (ev.call params grid none source?)) ∧
      (m.kind = .convolution .norm → ∀ flux?, Fails (ev.call params grid flux? none)) := by
  refine ⟨exists_compile options, fun ev hev params grid => ?_⟩
  have h : ev.Heeds m.kind := compile_heeds hm.wellKinded hev
  rcases hk : m.kind with _ | _ | _ | _ <;> rw [hk] at h
  · have hcall := h params grid
    exact ⟨fun _ f s f' s' => (hcall f s).trans (hcall f' s').symm, nofun, nofun, nofun⟩
  · have hcall := h params grid
    exact ⟨fun _ f s f' s' => (hcall f s).trans (hcall f' s').symm, nofun, nofun, nofun⟩
  · obtain ⟨hcall, hfail⟩ := h
    exact ⟨by simp, fun _ f s s' => (hcall _ _ f s).trans (hcall _ _ f s').symm,
      fun _ => hfail params grid, nofun⟩
  · obtain ⟨hflux, hsource⟩ := h
    exact ⟨by simp, nofun, fun _ => hflux params grid, fun _ => hsource params grid⟩

/-- The probe of a factor has a value for a flux with a source, and for neither alone. Before an
emission it takes no notice of them. -/
theorem inputs_of_kind_probed : Constructible Probed.transform ∧ Constructible Probed.model ∧
    ∃ ev ev', compile Probed.mapping {} Probed.transform = .ok ev ∧
      compile Probed.mapping {} Probed.model = .ok ev' ∧
      ev.call ∅ [1, 2, 3] (some [4, 5]) (some fun _ grid => .ok grid.tail) = .ok [12, 24] ∧
      Fails (ev.call ∅ [1, 2, 3] none (some fun _ grid => .ok grid.tail)) ∧
      Fails (ev.call ∅ [1, 2, 3] (some [4, 5]) none) ∧
      ev'.call ∅ [1, 2, 3] (some [4, 5]) none = ev'.call ∅ [1, 2, 3] none none := by
  obtain ⟨hok, h⟩ :=
    inputs_of_kind Probed.transform Probed.constructible_transform Probed.mapping {}
  obtain ⟨hok', h'⟩ := inputs_of_kind Probed.model Probed.constructible Probed.mapping {}
  obtain ⟨ev, hev⟩ := hok fun l hl => Probed.covers l (List.mem_append_left _ hl)
  obtain ⟨ev', hev'⟩ := hok' Probed.covers
  obtain ⟨-, -, hflux, hsource⟩ := h ev hev ∅ [1, 2, 3]
  refine ⟨Probed.constructible_transform, Probed.constructible, ev, ev', hev, hev', ?_, hflux rfl _,
    hsource rfl _, (h' ev' hev' ∅ [1, 2, 3]).1 (.inl rfl) _ _ _ _⟩
  cases hev
  rfl

end Model

end SpectralAlgebra
