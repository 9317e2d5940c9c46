import SpectralAlgebra.Proofs.Inputs

/-!
# Regrouping chains of transforms

Let `x` and `y` be transforms. If `(x * y) * z` is legal, so is `x * (y * z)`, and the two have the
same kind. They also have the same values, whatever they are handed, unless one of the groupings
multiplies bin values that the other does not, which it does where two multiplicative models stand
side by side (`Model.regroup_chain`).

An evaluator acts on a spectrum that is its flux and one that is its source
(`Evaluator.action`), and the shape of a product is one action after the other: the left operand
acts on what the right one makes of the flux and, as its source, on what it makes of the source
(`Shape.action_agree`). So both groupings are three actions, one after the other.
-/

namespace SpectralAlgebra

variable {V : Type} [Add V] [Mul V]

instance {α : Type} : Trans (@Agree α) (@Agree α) (@Agree α) := ⟨Agree.trans⟩

/-- The rules are associative from left to right. -/
theorem Resolution.infer_regroup {k₁ k₂ k₃ : ModelKind} {r s : Resolution}
    (h₁ : k₁ ≠ .additive) (h₂ : k₂ ≠ .additive) (hr : infer .mul k₁ k₂ = .ok r)
    (hs : infer .mul r.kind k₃ = .ok s) :
    ∃ r' s', infer .mul k₂ k₃ = .ok r' ∧ infer .mul k₁ r'.kind = .ok s' ∧ s'.kind = s.kind := by
  rcases k₁ with _ | _ | _ | _ <;> rcases k₂ with _ | _ | _ | _ <;> cases hr <;>
    first
    | exact absurd rfl h₁
    | exact absurd rfl h₂
    | rcases k₃ with _ | _ | _ | _ <;> cases hs <;> exact ⟨_, _, rfl, rfl, rfl⟩

theorem Resolution.multiplicative_of_infer {k₁ k₂ : ModelKind} {r : Resolution}
    (hr : infer .mul k₁ k₂ = .ok r) (hk : r.kind = .multiplicative) :
    k₁ = .multiplicative ∧ k₂ = .multiplicative := by
  rcases k₁ with _ | _ | _ | _ <;> rcases k₂ with _ | _ | _ | _ <;> cases hr <;>
    first
    | exact ⟨rfl, rfl⟩
    | cases hk

theorem Resolution.not_additive_of_infer {k₁ k₂ : ModelKind} {r : Resolution}
    (hr : infer .mul k₁ k₂ = .ok r) (h₁ : k₁ ≠ .additive) (h₂ : k₂ ≠ .additive) :
    r.kind ≠ .additive := by
  rcases k₁ with _ | _ | _ | _ <;> rcases k₂ with _ | _ | _ | _ <;> cases hr <;>
    first
    | exact absurd rfl h₁
    | exact absurd rfl h₂
    | simp

namespace Evaluator

/-- What an evaluator of a kind makes of a spectrum whose flux it is handed and of one that it may
ask for on other grids. An additive evaluator does without. -/
def action (params : ParamValues V) :
    ModelKind → Evaluator V → Spectrum V → Spectrum V → Spectrum V
  | .additive, ev, _, _ => ev.eval params
  | .multiplicative, ev, F, _ => Spectrum.pointwise .mul (ev.eval params) F
  | .convolution .flux, ev, F, _ => fun grid =>
    F grid >>= fun flux => ev.call params grid (some flux) none
  | .convolution .norm, ev, F, S => fun grid =>
    F grid >>= fun flux => ev.call params grid (some flux) (some fun _ => S)

variable {params : ParamValues V} {k : ModelKind} {ev ev' : Evaluator V}

theorem action_congr (h : ev.Reads params k) {F F' S S' : Spectrum V}
    (hF : ∀ g, Agree (F g) (F' g)) (hS : ∀ g, Agree (S g) (S' g)) (grid : List V) :
    Agree (action params k ev F S grid) (action params k ev F' S' grid) := by
  match k with
  | .additive => exact Agree.refl _
  | .multiplicative =>
    rw [action, Spectrum.pointwise_eq]
    exact Spectrum.combine_agree (Agree.refl _) (hF grid)
  | .convolution .flux => exact (hF grid).bind_left _
  | .convolution .norm => exact (hF grid).bind fun flux => h grid (some flux) _ _ hS

/-- Evaluators that act alike give the same values, whatever they are handed. -/
theorem agree_of_action (hk : k ≠ .multiplicative) (h : ev.Heeds k) (h' : ev'.Heeds k)
    (hr : ev.Reads params k) (hr' : ev'.Reads params k)
    (ha : ∀ F S grid, Agree (action params k ev F S grid) (action params k ev' F S grid))
    (grid : List V) (flux? : Option (List V)) (source? : Option (FluxSource V)) :
    Agree (ev.call params grid flux? source?) (ev'.call params grid flux? source?) := by
  match k with
  | .additive =>
    rw [h, h']
    exact ha (fun _ => .ok []) (fun _ => .ok []) grid
  | .multiplicative => exact absurd rfl hk
  | .convolution .flux =>
    rcases flux? with _ | flux
    · exact (h.2 params grid source?).agree (h'.2 params grid source?)
    · rw [h.1, h'.1]
      exact ha (fun _ => .ok flux) (fun _ => .ok flux) grid
  | .convolution .norm =>
    rcases flux? with _ | flux
    · exact (h.1 params grid source?).agree (h'.1 params grid source?)
    · rcases source? with _ | source
      · exact (h.2 params grid (some flux)).agree (h'.2 params grid (some flux))
      · -- at these parameter values any source may stand for the one that is handed in
        let fixed : FluxSource V := fun _ => source params
        have hs : ∀ g, Agree (source params g) (fixed params g) := fun g => Agree.refl _
        have h₁ := hr grid (some flux) source fixed hs
        have h₂ := hr' grid (some flux) source fixed hs
        exact (h₁.trans (ha (fun _ => .ok flux) (source params) grid)).trans h₂.symm

end Evaluator

/-! ## Shapes -/

namespace Shape

def evaluator (s : Shape) (label : String) (m₁ m₂ : Evaluator V) : Evaluator V :=
  ⟨label, s.evaluation label m₁ m₂⟩

open Evaluator (action)

variable {params : ParamValues V} {m₁ m₂ : Evaluator V} (label : String) (F S : Spectrum V)
  (grid : List V)

theorem mulFlux_action : Agree
    (action params (.convolution .flux) (mulFlux.evaluator label m₁ m₂) F S grid)
    (action params .multiplicative m₁ (action params (.convolution .flux) m₂ F S)
      (action params (.convolution .flux) m₂ S S) grid) := by
  -- the evaluator asks for the factor after it has been handed the flux
  refine (Agree.comm (F grid) (m₁.eval params grid) _).trans ?_
  simpa only [action, bind_assoc] using Spectrum.combine_agree (o := .mul) (Agree.refl _)
    (Agree.refl (action params (.convolution .flux) m₂ F S grid))

theorem mulNorm_action : Agree
    (action params (.convolution .norm) (mulNorm.evaluator label m₁ m₂) F S grid)
    (action params .multiplicative m₁ (action params (.convolution .norm) m₂ F S)
      (action params (.convolution .norm) m₂ S S) grid) := by
  refine (Agree.comm (F grid) (m₁.eval params grid) _).trans ?_
  simpa only [action, bind_assoc] using Spectrum.combine_agree (o := .mul) (Agree.refl _)
    (Agree.refl (action params (.convolution .norm) m₂ F S grid))

theorem fluxMul_action : Agree
    (action params (.convolution .flux) (fluxMul.evaluator label m₁ m₂) F S grid)
    (action params (.convolution .flux) m₁ (action params .multiplicative m₂ F S)
      (action params .multiplicative m₂ S S) grid) :=
  Spectrum.combine_comm_agree (Agree.refl (m₂.eval params grid)) _

theorem fluxFlux_action : Agree
    (action params (.convolution .flux) (fluxFlux.evaluator label m₁ m₂) F S grid)
    (action params (.convolution .flux) m₁ (action params (.convolution .flux) m₂ F S)
      (action params (.convolution .flux) m₂ S S) grid) :=
  (Agree.refl _).bind_bind _

theorem fluxNorm_action : Agree
    (action params (.convolution .norm) (fluxNorm.evaluator label m₁ m₂) F S grid)
    (action params (.convolution .flux) m₁ (action params (.convolution .norm) m₂ F S)
      (action params (.convolution .norm) m₂ S S) grid) :=
  (Agree.refl _).bind_bind _

theorem normAdd_action (h₁ : m₁.Reads params (.convolution .norm)) : Agree
    (action params .additive (normAdd.evaluator label m₁ m₂) F S grid)
    (action params (.convolution .norm) m₁ (action params .additive m₂ F S)
      (action params .additive m₂ S S) grid) :=
  (Agree.refl _).bind fun flux => h₁ grid (some flux) _ _ fun _ => Agree.refl _

theorem normMul_action (h₁ : m₁.Reads params (.convolution .norm)) : Agree
    (action params (.convolution .norm) (normMul.evaluator label m₁ m₂) F S grid)
    (action params (.convolution .norm) m₁ (action params .multiplicative m₂ F S)
      (action params .multiplicative m₂ S S) grid) := by
  refine (Spectrum.combine_comm_agree (Agree.refl (m₂.eval params grid)) _).trans ?_
  refine (Agree.refl _).bind fun flux => h₁ grid (some flux) _ _ fun g => ?_
  exact Spectrum.combine_agree (Agree.refl (m₂.eval params g)) (Agree.refl (S g))

theorem normFlux_action (h₁ : m₁.Reads params (.convolution .norm)) : Agree
    (action params (.convolution .norm) (normFlux.evaluator label m₁ m₂) F S grid)
    (action params (.convolution .norm) m₁ (action params (.convolution .flux) m₂ F S)
      (action params (.convolution .flux) m₂ S S) grid) := by
  refine ((Agree.refl (action params (.convolution .flux) m₂ F S grid)).bind_bind _).trans ?_
  exact (Agree.refl _).bind fun flux => h₁ grid (some flux) _ _ fun _ => Agree.refl _

/-- The evaluator of a product acts as its right operand and then as its left one. -/
theorem action_agree (label : String) (m₁ m₂ : Evaluator V) (F S : Spectrum V) (grid : List V)
    {k₁ k₂ : ModelKind} {r : Resolution} (hr : Resolution.infer .mul k₁ k₂ = .ok r)
    (hk : k₁ ≠ .additive) (hm : ¬ (k₁ = .multiplicative ∧ k₂ = .multiplicative))
    (h₁ : m₁.Reads params k₁) : Agree
      (action params r.kind (r.shape.evaluator label m₁ m₂) F S grid)
      (action params k₁ m₁ (action params k₂ m₂ F S) (action params k₂ m₂ S S) grid) := by
  match k₁, k₂, r, hr with
  | .additive, _, _, _ => exact absurd rfl hk
  | .multiplicative, .multiplicative, _, _ => exact absurd ⟨rfl, rfl⟩ hm
  | .multiplicative, .additive, _, rfl =>
    exact Spectrum.combine_agree (Agree.refl (m₁.eval params grid))
      (Agree.refl (m₂.eval params grid))
  | .multiplicative, .convolution .flux, _, rfl => exact mulFlux_action label F S grid
  | .multiplicative, .convolution .norm, _, rfl => exact mulNorm_action label F S grid
  | .convolution .flux, .additive, _, rfl => exact Agree.refl _
  | .convolution .flux, .multiplicative, _, rfl => exact fluxMul_action label F S grid
  | .convolution .flux, .convolution .flux, _, rfl => exact fluxFlux_action label F S grid
  | .convolution .flux, .convolution .norm, _, rfl => exact fluxNorm_action label F S grid
  | .convolution .norm, .additive, _, rfl => exact normAdd_action label F S grid h₁
  | .convolution .norm, .multiplicative, _, rfl => exact normMul_action label F S grid h₁
  | .convolution .norm, .convolution .flux, _, rfl => exact normFlux_action label F S grid h₁

end Shape

/-! ## Groupings -/

section Groupings

open Evaluator (action)

variable {params : ParamValues V} {k₁ k₂ k₃ : ModelKind} {m₁ m₂ : Evaluator V}
  {r s r' s' : Resolution}

/-- Either grouping is three actions one after the other. -/
theorem Shape.regroup_action (hk₁ : k₁ ≠ .additive) (hk₂ : k₂ ≠ .additive)
    (h₁₂ : ¬ (k₁ = .multiplicative ∧ k₂ = .multiplicative))
    (h₂₃ : ¬ (k₂ = .multiplicative ∧ k₃ = .multiplicative))
    (hr : Resolution.infer .mul k₁ k₂ = .ok r) (hs : Resolution.infer .mul r.kind k₃ = .ok s)
    (hr' : Resolution.infer .mul k₂ k₃ = .ok r') (hs' : Resolution.infer .mul k₁ r'.kind = .ok s')
    (h₁ : m₁.Reads params k₁) (h₂ : m₂.Reads params k₂) (m₃ : Evaluator V) (a b c d : String)
    (F S : Spectrum V) (grid : List V) :
    Agree
      (action params s.kind (s.shape.evaluator b (r.shape.evaluator a m₁ m₂) m₃) F S grid)
      (action params s'.kind (s'.shape.evaluator d m₁ (r'.shape.evaluator c m₂ m₃)) F S
        grid) := by
  let A₃ : Spectrum V → Spectrum V → Spectrum V := action params k₃ m₃
  have hrk : r.kind ≠ .additive := Resolution.not_additive_of_infer hr hk₁ hk₂
  have hrm : ¬ (r.kind = .multiplicative ∧ k₃ = .multiplicative) := fun h =>
    h₁₂ (Resolution.multiplicative_of_infer hr h.1)
  have hrm' : ¬ (k₁ = .multiplicative ∧ r'.kind = .multiplicative) := fun h =>
    h₂₃ (Resolution.multiplicative_of_infer hr' h.2)
  have hread : Evaluator.Reads params r.kind (r.shape.evaluator a m₁ m₂) := reads a a hr h₁ h₂
  have right : ∀ F g, Agree (action params r'.kind (r'.shape.evaluator c m₂ m₃) F S g)
      (action params k₂ m₂ (A₃ F S) (A₃ S S) g) := fun F g =>
    action_agree c m₂ m₃ F S g hr' hk₂ h₂₃ h₂
  calc
    Agree _ (action params r.kind (r.shape.evaluator a m₁ m₂) (A₃ F S) (A₃ S S) grid) :=
      action_agree b _ m₃ F S grid hs hrk hrm hread
    Agree _ (action params k₁ m₁ (action params k₂ m₂ (A₃ F S) (A₃ S S))
        (action params k₂ m₂ (A₃ S S) (A₃ S S)) grid) :=
      action_agree a m₁ m₂ (A₃ F S) (A₃ S S) grid hr hk₁ h₁₂ h₁
    Agree _ (action params k₁ m₁ (action params r'.kind (r'.shape.evaluator c m₂ m₃) F S)
        (action params r'.kind (r'.shape.evaluator c m₂ m₃) S S) grid) :=
      (Evaluator.action_congr h₁ (right F) (right S) grid).symm
    Agree _ _ := (action_agree d m₁ _ F S grid hs' hk₁ hrm' h₁).symm

end Groupings

namespace Model

variable {mapping : OrderedMap String String} {options : CompileOptions} {x y z : Model V}

omit [Add V] [Mul V] in
theorem PassesOn.op (hx : x.PassesOn) (hy : y.PassesOn) (id : NodeId) (o : Operator)
    (r : Resolution) : PassesOn (.op id o r x y) :=
  fun l hl => (List.mem_append.1 hl).elim (hx l) (hy l)

section Composites

variable {m₁ m₂ : Evaluator V} (id : NodeId) (o : Operator) (r : Resolution)

theorem compile_op_ok (hx : compile mapping options x = .ok m₁)
    (hy : compile mapping options y = .ok m₂) :
    compile mapping options (.op id o r x y)
      = .ok (r.shape.evaluator (substitute (Expr.op id o r x y).name mapping) m₁ m₂) := by
  rw [compile, hx, hy]
  rfl

end Composites

/-- The two compile with the same error, or to evaluators that have the same values. -/
def Interchangeable (mapping : OrderedMap String String) (options : CompileOptions)
    (m n : Model V) : Prop :=
  (∃ e, compile mapping options m = .error e ∧ compile mapping options n = .error e) ∨
    ∃ ev ev', compile mapping options m = .ok ev ∧ compile mapping options n = .ok ev' ∧
      ∀ params grid flux? source?,
        Agree (ev.call params grid flux? source?) (ev'.call params grid flux? source?)

theorem regroup_interchangeable {r s r' s' : Resolution} (hx : x.WellKinded) (hy : y.WellKinded)
    (hz : z.WellKinded) (hkx : x.kind ≠ .additive) (hky : y.kind ≠ .additive)
    (hxy : ¬ (x.kind = .multiplicative ∧ y.kind = .multiplicative))
    (hyz : ¬ (y.kind = .multiplicative ∧ z.kind = .multiplicative))
    (hr : Resolution.infer .mul x.kind y.kind = .ok r)
    (hs : Resolution.infer .mul r.kind z.kind = .ok s)
    (hr' : Resolution.infer .mul y.kind z.kind = .ok r')
    (hs' : Resolution.infer .mul x.kind r'.kind = .ok s') (hk : s'.kind = s.kind)
    (hpx : x.PassesOn) (hpy : y.PassesOn) (hpz : z.PassesOn) (i j i' j' : NodeId)
    (mapping : OrderedMap String String) (options : CompileOptions) :
    Interchangeable mapping options (.op j .mul s (.op i .mul r x y) z)
      (.op j' .mul s' x (.op i' .mul r' y z)) := by
  rcases h₁ : compile mapping options x with e | m₁
  · exact .inl ⟨e, compile_op_error_left _ _ _ (compile_op_error_left _ _ _ h₁),
      compile_op_error_left _ _ _ h₁⟩
  rcases h₂ : compile mapping options y with e | m₂
  · exact .inl ⟨e, compile_op_error_left _ _ _ (compile_op_error_right _ _ _ h₁ h₂),
      compile_op_error_right _ _ _ h₁ (compile_op_error_left _ _ _ h₂)⟩
  rcases h₃ : compile mapping options z with e | m₃
  · exact .inl ⟨e, compile_op_error_right _ _ _ (compile_op_ok _ _ _ h₁ h₂) h₃,
      compile_op_error_right _ _ _ h₁ (compile_op_error_right _ _ _ h₂ h₃)⟩
  have hev := compile_op_ok j .mul s (compile_op_ok i .mul r h₁ h₂) h₃
  have hev' := compile_op_ok j' .mul s' h₁ (compile_op_ok i' .mul r' h₂ h₃)
  refine .inr ⟨_, _, hev, hev', fun params => ?_⟩
  have hw : WellKinded (.op j .mul s (.op i .mul r x y) z) := ⟨⟨hx, hy, hr⟩, hz, hs⟩
  have hw' : WellKinded (.op j' .mul s' x (.op i' .mul r' y z)) := ⟨hx, ⟨hy, hz, hr'⟩, hs'⟩
  have hp := ((hpx.op hpy i .mul r).op hpz j .mul s)
  have hp' := hpx.op (hpy.op hpz i' .mul r') j' .mul s'
  -- a multiplicative product has multiplicative factors only
  have hm : s.kind ≠ .multiplicative := fun h =>
    hxy (Resolution.multiplicative_of_infer hr (Resolution.multiplicative_of_infer hs h).1)
  have hheeds : Evaluator.Heeds s.kind _ := compile_heeds hw hev
  have hheeds' : Evaluator.Heeds s'.kind _ := compile_heeds hw' hev'
  have hreads : Evaluator.Reads params s.kind _ := compile_reads hw hp params hev
  have hreads' : Evaluator.Reads params s'.kind _ := compile_reads hw' hp' params hev'
  have hact := Shape.regroup_action hkx hky hxy hyz hr hs hr' hs'
    (compile_reads hx hpx params h₁) (compile_reads hy hpy params h₂) m₃
  rw [hk] at hheeds' hreads' hact
  exact Evaluator.agree_of_action hm hheeds hheeds' hreads hreads' (hact _ _ _ _)

/-- Transforms may be regrouped: the other grouping is legal and has the same kind, and unless two
multiplicative models stand side by side it has the same values. -/
theorem regroup_chain (x y z xy xyz : Model V) (hx : x.Constructible) (hy : y.Constructible)
    (hz : z.Constructible) (hkx : x.kind ≠ .additive) (hky : y.kind ≠ .additive) (i j : NodeId)
    (hxy : combine i .mul x y = .ok xy) (hxyz : combine j .mul xy z = .ok xyz) (i' j' : NodeId) :
    ∃ yz xyz', combine i' .mul y z = .ok yz ∧ combine j' .mul x yz = .ok xyz' ∧
      xyz'.kind = xyz.kind ∧
      (¬ (x.kind = .multiplicative ∧ y.kind = .multiplicative) →
        ¬ (y.kind = .multiplicative ∧ z.kind = .multiplicative) →
        x.PassesOn → y.PassesOn → z.PassesOn →
        ∀ mapping options, Interchangeable mapping options xyz xyz') := by
  obtain ⟨r, hr, rfl⟩ := combine_eq_ok hxy
  obtain ⟨s, hs, rfl⟩ := combine_eq_ok hxyz
  obtain ⟨r', s', hr', hs', hk⟩ := Resolution.infer_regroup hkx hky hr hs
  refine ⟨.op i' .mul r' y z, .op j' .mul s' x (.op i' .mul r' y z), ?_, ?_, hk, ?_⟩
  · rw [combine, hr']
  · rw [combine, show Resolution.infer .mul x.kind (kind (.op i' .mul r' y z)) = .ok s' from hs']
  · intro hm₁₂ hm₂₃ hpx hpy hpz mapping options
    exact regroup_interchangeable hx.wellKinded hy.wellKinded hz.wellKinded hkx hky hm₁₂ hm₂₃ hr
      hs hr' hs' hk hpx hpy hpz i j i' j' mapping options

namespace Blurred

open Probed

def blur : Leaf (ModelData Nat) :=
  ⟨.fresh 2, "C", "C", ∅, .convolution .flux, ∅, .fluxConvolution fun _ _ flux _ => flux.reverse⟩

/-- The probe of the factor, on what the blur makes. -/
def model : Model Nat :=
  .op (.fresh 4) .mul ⟨.convolution .norm, .normFlux⟩
    (.op (.fresh 3) .mul ⟨.convolution .norm, .normMul⟩ (.leaf conv) (.leaf factor)) (.leaf blur)

theorem constructible_blur : Constructible (.leaf blur) :=
  .make (show Model.make (.fresh 2) "C" "C" (.convolution .flux) []
    (.fluxConvolution fun _ _ flux _ => flux.reverse) ∅ = .ok (.leaf blur) from rfl)

theorem passesOn_conv : PassesOn (.leaf conv) := by
  intro l hl make hg component
  obtain rfl := List.mem_singleton.1 hl
  cases hg
  exact probe_passesOn

theorem passesOn_factor : PassesOn (.leaf factor) := by
  intro l hl make hg
  obtain rfl := List.mem_singleton.1 hl
  cases hg

theorem passesOn_blur : PassesOn (.leaf blur) := by
  intro l hl make hg
  obtain rfl := List.mem_singleton.1 hl
  cases hg

end Blurred

open Probed Blurred in
/-- The probe sees the factor either way, whether it is applied to the factor first or to the
factor's product with the blur. -/
theorem regroup_chain_blurred :
    Constructible (.leaf conv) ∧ Constructible (.leaf factor) ∧ Constructible (.leaf blur) ∧
      ∃ yz xyz, combine (.fresh 5) .mul (.leaf factor) (.leaf blur) = .ok yz ∧
        combine (.fresh 6) .mul (.leaf conv) yz = .ok xyz ∧ xyz.kind = .convolution .norm ∧
        ∀ mapping options, Interchangeable mapping options Blurred.model xyz := by
  refine ⟨constructible_conv, constructible_factor, constructible_blur, ?_⟩
  obtain ⟨yz, xyz, hyz, hxyz, hk, hi⟩ := regroup_chain (.leaf conv) (.leaf factor) (.leaf blur)
    _ Blurred.model constructible_conv constructible_factor constructible_blur
    (by decide) (by decide) (.fresh 3) (.fresh 4) rfl rfl (.fresh 5) (.fresh 6)
  exact ⟨yz, xyz, hyz, hxyz, hk, hi (by decide) (by decide) passesOn_conv passesOn_factor
    passesOn_blur⟩

end Model

end SpectralAlgebra
