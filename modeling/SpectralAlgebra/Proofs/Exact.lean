import Mathlib.Algebra.Group.Pi.Basic
import Mathlib.Algebra.Group.Prod
import SpectralAlgebra.Proofs.Depths
import SpectralAlgebra.Proofs.Regrouping

/-!
# Evaluators under exact arithmetic

Let addition and multiplication of bin values be associative. If it makes no difference how an
evaluation fails, they are so for outcomes, and for what is known of a flux and its source on all
grids (`Views`). What an evaluator makes of a flux and a source is then the effect of its model,
given what the evaluators of the leaves make of them (`Model.compile_denotes`). So models with the
same leaves and the same effects may stand for each other (`Model.interchangeable_of_effect`).
-/

namespace SpectralAlgebra

variable {V : Type}

/-! ## Exact bin values -/

theorem zipWith_assoc {f : V → V → V} (hf : ∀ a b c, f (f a b) c = f a (f b c)) :
    ∀ xs ys zs : List V,
      List.zipWith f (List.zipWith f xs ys) zs = List.zipWith f xs (List.zipWith f ys zs)
  | [], _, _ | _ :: _, [], _ | _ :: _, _ :: _, [] => by simp
  | x :: xs, y :: ys, z :: zs => by
    simp only [List.zipWith_cons_cons, hf, zipWith_assoc hf xs ys zs]

/-- What is known of an outcome when it makes no difference how it failed. -/
inductive Readout (V : Type) where
  | failed
  | bins (xs : List V)

namespace Readout

def ofOutcome : Outcome (List V) → Readout V
  | .error _ => failed
  | .ok xs => bins xs

def outcome : Readout V → Outcome (List V)
  | failed => .error (.degenerateGrid 0)
  | bins xs => .ok xs

@[simp] theorem ofOutcome_outcome : ∀ a : Readout V, ofOutcome a.outcome = a
  | failed | bins _ => rfl

theorem ofOutcome_eq_iff {a b : Outcome (List V)} : ofOutcome a = ofOutcome b ↔ Agree a b := by
  rcases a with e | xs <;> rcases b with e' | ys <;> simp [ofOutcome, Agree, eq_comm]

theorem eq_ok_of_ofOutcome {xs : List V} : ∀ {a : Outcome (List V)}, ofOutcome a = bins xs →
    a = .ok xs
  | .ok _, h => by rw [(bins.inj h)]

section Combine

variable [Add V] [Mul V] (o : Operator)

def combine : Readout V → Readout V → Readout V
  | bins xs, bins ys =>
    if xs.length = ys.length then bins (List.zipWith o.apply xs ys) else failed
  | _, _ => failed

theorem ofOutcome_combine (a b : Outcome (List V)) :
    ofOutcome (a >>= fun xs => b >>= fun ys => Bins.combine o xs ys)
      = combine o (ofOutcome a) (ofOutcome b) := by
  rcases a with e | xs
  · rfl
  · rcases b with e | ys
    · rfl
    · change ofOutcome (Bins.combine o xs ys) = _
      rw [Bins.combine_eq]
      by_cases h : xs.length = ys.length <;> simp [ofOutcome, combine, h]

variable {o} in
theorem combine_assoc (ho : ∀ a b c : V, o.apply (o.apply a b) c = o.apply a (o.apply b c)) :
    ∀ a b c : Readout V, combine o (combine o a b) c = combine o a (combine o b c)
  | failed, _, _ | bins _, failed, _ => rfl
  | bins xs, bins ys, failed => by
    by_cases h : xs.length = ys.length <;> simp [combine, h]
  | bins xs, bins ys, bins zs => by
    by_cases h' : zs.length = ys.length
    · by_cases h : xs.length = ys.length <;> simp [combine, h, h', zipWith_assoc ho]
    · by_cases h : xs.length = ys.length <;> simp [combine, h, Ne.symm h']

instance : Add (Readout V) := ⟨combine .add⟩

instance : Mul (Readout V) := ⟨combine .mul⟩

end Combine

instance [Add V] [Semigroup V] : Semigroup (Readout V) := ⟨combine_assoc mul_assoc⟩

instance [AddSemigroup V] [Mul V] : AddSemigroup (Readout V) := ⟨combine_assoc add_assoc⟩

end Readout

/-! ## Flux and source -/

/-- A flux and a source on every grid. -/
abbrev Views (V : Type) := (List V → Readout V) × (List V → Readout V)

namespace Views

def of (F S : Spectrum V) : Views V :=
  (fun grid => .ofOutcome (F grid), fun grid => .ofOutcome (S grid))

def flux (q : Views V) : Spectrum V := fun grid => (q.1 grid).outcome

def source (q : Views V) : Spectrum V := fun grid => (q.2 grid).outcome

theorem of_flux_source (q : Views V) : of q.flux q.source = q := by
  simp [of, flux, source]

theorem of_eq_iff {F S F' S' : Spectrum V} : of F S = of F' S' ↔
    (∀ grid, Agree (F grid) (F' grid)) ∧ ∀ grid, Agree (S grid) (S' grid) := by
  simp only [of, Prod.mk.injEq, funext_iff, Readout.ofOutcome_eq_iff]

theorem of_pointwise [Add V] [Mul V] (o : Operator) (F G S T : Spectrum V) :
    of (Spectrum.pointwise o F G) (Spectrum.pointwise o S T) =
      (fun grid => .combine o ((of F S).1 grid) ((of G T).1 grid),
        fun grid => .combine o ((of F S).2 grid) ((of G T).2 grid)) := by
  simp only [of, Spectrum.pointwise_eq, Readout.ofOutcome_combine]

end Views

namespace Evaluator

variable [Add V] [Mul V] {params : ParamValues V} {k : ModelKind} {ev : Evaluator V}

/-- The flux and the source that an evaluator makes. -/
def acts (params : ParamValues V) (k : ModelKind) (ev : Evaluator V) (q : Views V) : Views V :=
  .of (action params k ev q.flux q.source) (action params k ev q.source q.source)

def values (params : ParamValues V) (ev : Evaluator V) : Views V :=
  .of (ev.eval params) (ev.eval params)

theorem acts_of (h : ev.Reads params k) (F S : Spectrum V) :
    acts params k ev (.of F S) = .of (action params k ev F S) (action params k ev S S) := by
  obtain ⟨hF, hS⟩ := Views.of_eq_iff.1 (Views.of_flux_source (.of F S))
  exact Views.of_eq_iff.2 ⟨action_congr h hF hS, action_congr h hS hS⟩

theorem acts_multiplicative (q : Views V) :
    acts params .multiplicative ev q = values params ev * q := by
  conv_rhs => rw [← Views.of_flux_source q]
  exact Views.of_pointwise .mul _ _ _ _

/-- What an evaluator of a kind makes of what follows it: additive and multiplicative ones multiply
it, and convolutions act on it. -/
structure Denotes (params : ParamValues V) (k : ModelKind) (ev : Evaluator V)
    (f : Option (Views V) → Views V) : Prop where
  factor : k.isConvolution = false → ∀ a?, f a? = onto (· * ·) (ev.values params) a?
  convolution : k.isConvolution → ∀ q, f (some q) = ev.acts params k q

theorem Denotes.transform {f : Option (Views V) → Views V} (h : Denotes params k ev f)
    (hk : k ≠ .additive) (q : Views V) : f (some q) = ev.acts params k q := by
  rcases k with _ | _ | c
  · exact absurd rfl hk
  · rw [h.factor rfl, acts_multiplicative]
    rfl
  · exact h.convolution rfl q

end Evaluator

namespace Shape

open Evaluator (acts values Denotes)

section Products

variable [Add V] [Mul V] {params : ParamValues V} {k₁ k₂ : ModelKind} {r : Resolution}
  {m₁ m₂ : Evaluator V} (label : String)

theorem values_product :
    values params (product.evaluator label m₁ m₂) = values params m₁ * values params m₂ := by
  have h : (product.evaluator label m₁ m₂).eval params
      = Spectrum.pointwise .mul (m₁.eval params) (m₂.eval params) :=
    funext fun grid => (Spectrum.pointwise_eq ..).symm
  rw [values, h]
  exact Views.of_pointwise .mul _ _ _ _

theorem values_addAdd :
    values params (addAdd.evaluator label m₁ m₂) = values params m₁ + values params m₂ := by
  have h : (addAdd.evaluator label m₁ m₂).eval params
      = Spectrum.pointwise .add (m₁.eval params) (m₂.eval params) :=
    funext fun grid => (Spectrum.pointwise_eq ..).symm
  rw [values, h]
  exact Views.of_pointwise .add _ _ _ _

theorem acts_acts (hr : Resolution.infer .mul k₁ k₂ = .ok r) (hk : k₁ ≠ .additive)
    (hm : ¬ (k₁ = .multiplicative ∧ k₂ = .multiplicative)) (h₁ : m₁.Reads params k₁)
    (q : Views V) :
    acts params r.kind (r.shape.evaluator label m₁ m₂) q
      = acts params k₁ m₁ (acts params k₂ m₂ q) := by
  rw [acts, acts.eq_1 params k₂, Evaluator.acts_of h₁]
  exact Views.of_eq_iff.2 ⟨fun grid => action_agree label m₁ m₂ _ _ grid hr hk hm h₁,
    fun grid => action_agree label m₁ m₂ _ _ grid hr hk hm h₁⟩

end Products

variable [AddSemigroup V] [Semigroup V] {params : ParamValues V} {k₁ k₂ : ModelKind}
  {r : Resolution} {m₁ m₂ : Evaluator V} {f₁ f₂ : Option (Views V) → Views V} (label : String)

theorem denotes_sum (h₁ : Denotes params .additive m₁ f₁) (h₂ : Denotes params .additive m₂ f₂) :
    Denotes params .additive (addAdd.evaluator label m₁ m₂)
      (onto (· * ·) (f₁ none + f₂ none)) where
  factor := fun _ a? => by
    rw [h₁.factor rfl, h₂.factor rfl, values_addAdd]
    rfl
  convolution := nofun

/-- A convolution before an additive model. -/
theorem denotes_applied (hr : Resolution.infer .mul k₁ .additive = .ok r)
    (hk : k₁.isConvolution) (hread : m₁.Reads params k₁) (h₁ : Denotes params k₁ m₁ f₁)
    (h₂ : Denotes params .additive m₂ f₂) :
    Denotes params r.kind (r.shape.evaluator label m₁ m₂)
      (onto (· * ·) (f₁ (some (f₂ none)))) := by
  have hk₁ : k₁ ≠ .additive := by
    rintro rfl
    cases hk
  have hkind : r.kind = .additive := Resolution.additive_of_infer hr
  have hval : f₁ (some (f₂ none)) = values params (r.shape.evaluator label m₁ m₂) := by
    rw [h₂.factor rfl, h₁.convolution hk]
    have h : acts params r.kind (r.shape.evaluator label m₁ m₂) (values params m₂) = _ :=
      acts_acts label hr hk₁ (by simp) hread (values params m₂)
    rw [hkind] at h
    exact h.symm
  rw [hkind, hval]
  exact ⟨fun _ _ => rfl, nofun⟩

theorem denotes_product (hr : Resolution.infer .mul k₁ k₂ = .ok r)
    (hk : ¬ (k₁.isConvolution ∧ k₂ = .additive)) (hread : m₁.Reads params k₁)
    (h₁ : Denotes params k₁ m₁ f₁) (h₂ : Denotes params k₂ m₂ f₂) :
    Denotes params r.kind (r.shape.evaluator label m₁ m₂) (fun a? => f₁ (some (f₂ a?))) where
  factor := fun hc a? => by
    obtain ⟨hc₁, hc₂⟩ := Resolution.factors_of_infer hr hc hk
    rw [h₁.factor hc₁, h₂.factor hc₂, Resolution.shape_of_factors hr hc₁ hc₂, values_product]
    exact (onto_assoc mul_assoc _ _ a?).symm
  convolution := fun hc q => by
    have hne : r.kind ≠ .additive := fun h => by rw [h] at hc; cases hc
    obtain ⟨hk₁, hk₂⟩ := Resolution.operands_of_infer hr hne
    have hm : ¬ (k₁ = .multiplicative ∧ k₂ = .multiplicative) := by
      rintro ⟨rfl, rfl⟩
      cases hr
      cases hc
    rw [h₁.transform hk₁, h₂.transform hk₂, acts_acts label hr hk₁ hm hread]

end Shape

namespace Model

section Denotations

variable [AddSemigroup V] [Semigroup V] {mapping : OrderedMap String String}
  {options : CompileOptions} {params : ParamValues V} {m n : Model V} {ev ev' : Evaluator V}

/-- The evaluator of a leaf, under any name if the mapping has none for it. -/
def leafEvaluator (mapping : OrderedMap String String) (options : CompileOptions)
    (l : Leaf (ModelData V)) : Evaluator V :=
  let component := (mapping.get? l.taggedName).getD ""
  ⟨component, leafEvaluation options.checkShapes component l.data⟩

def leafEffect (mapping : OrderedMap String String) (options : CompileOptions)
    (params : ParamValues V) (l : Leaf (ModelData V)) (a? : Option (Views V)) : Views V :=
  let ev := leafEvaluator mapping options l
  if l.data.kind.isConvolution then a?.elim (ev.values params) (ev.acts params l.data.kind)
  else onto (· * ·) (ev.values params) a?

theorem leafEffect_multiplies : Multiplies (leafEffect mapping options params (V := V)) := by
  intro l hl a?
  simp [leafEffect, hl, onto]

variable (params) in
theorem compile_denotes : ∀ {m : Model V} {ev : Evaluator V}, m.WellKinded → m.PassesOn →
    compile mapping options m = .ok ev →
      ev.Denotes params m.kind (m.effect (leafEffect mapping options params))
  | .leaf l, ev, hm, hp, h => by
    obtain ⟨component, hc, rfl⟩ := compile_leaf_eq_ok.1 h
    have hev : leafEvaluator mapping options l
        = ⟨component, leafEvaluation options.checkShapes component l.data⟩ := by
      rw [leafEvaluator, hc]
      rfl
    rw [← hev]
    constructor
    · intro hk a?
      have hk : l.data.kind.isConvolution = false := hk
      simp [effect, leafEffect, hk]
    · intro hk q
      have hk : l.data.kind.isConvolution = true := hk
      simp only [effect, leafEffect, hk, if_true]
      rfl
  | .op id o r x y, ev, ⟨hx, hy, hr⟩, hp, h => by
    obtain ⟨m₁, m₂, h₁, h₂, rfl⟩ := compile_op_eq_ok.1 h
    obtain ⟨hpx, hpy⟩ := passesOn_op hp
    have ihx := compile_denotes hx hpx h₁
    have ihy := compile_denotes hy hpy h₂
    have hread := compile_reads hx hpx params h₁
    rcases o with _ | _
    · obtain ⟨hkx, hky⟩ := Resolution.infer_add_eq_ok_iff.1 ⟨r, hr⟩
      rw [hkx] at hr ihx
      rw [hky] at hr ihy
      cases hr
      exact Shape.denotes_sum _ ihx ihy
    · rw [effect]
      split
      · rename_i hxy
        rw [hxy.2] at hr ihy
        exact Shape.denotes_applied _ hr hxy.1 hread ihx ihy
      · rename_i hxy
        exact Shape.denotes_product _ hr hxy hread ihx ihy

theorem call_agree {k : ModelKind} {f : Option (Views V) → Views V} (hh : ev.Heeds k)
    (hh' : ev'.Heeds k) (hr : ev.Reads params k) (hr' : ev'.Reads params k)
    (h : ev.Denotes params k f) (h' : ev'.Denotes params k f) (grid : List V)
    (flux? : Option (List V)) (source? : Option (FluxSource V)) :
    Agree (ev.call params grid flux? source?) (ev'.call params grid flux? source?) := by
  by_cases hk : k.isConvolution
  · have hacts : ∀ q, ev.acts params k q = ev'.acts params k q := fun q =>
      (h.convolution hk q).symm.trans (h'.convolution hk q)
    refine Evaluator.agree_of_action ?_ hh hh' hr hr' (fun F S => ?_) grid flux? source?
    · rintro rfl
      cases hk
    · have hFS := hacts (.of F S)
      rw [Evaluator.acts_of hr, Evaluator.acts_of hr'] at hFS
      exact (Views.of_eq_iff.1 hFS).1
  · rw [Bool.not_eq_true] at hk
    have hvalues : ev.values params = ev'.values params :=
      (h.factor hk none).symm.trans (h'.factor hk none)
    have heval := (Views.of_eq_iff.1 hvalues).1 grid
    rcases k with _ | _ | c
    · rw [hh, hh']
      exact heval
    · rw [hh, hh']
      exact heval
    · cases hk

/-- Models with the same leaves and the same effects may stand for each other. -/
theorem interchangeable_of_effect (hm : m.WellKinded) (hn : n.WellKinded) (hp : m.PassesOn)
    (hl : m.leaves = n.leaves)
    (he : ∀ params, m.effect (leafEffect mapping options params)
      = n.effect (leafEffect mapping options params)) : Interchangeable mapping options m n := by
  have hpn : n.PassesOn := fun l hln => hp l (hl ▸ hln)
  rcases hfind : m.leaves.find? fun l => l.taggedName ∉ mapping.keys with _ | l
  · have hmapped := mapped_of_find?_eq_none hfind
    obtain ⟨ev, h⟩ := exists_compile options hmapped
    obtain ⟨ev', h'⟩ := exists_compile options (hl ▸ hmapped)
    have hk : n.kind = m.kind := kind_congr hn hm hl.symm
    refine .inr ⟨ev, ev', h, h', fun params => ?_⟩
    refine call_agree (compile_heeds hm h) (hk ▸ compile_heeds hn h') (compile_reads hm hp params h)
      (hk ▸ compile_reads hn hpn params h') (compile_denotes params hm hp h) ?_
    rw [he, ← hk]
    exact compile_denotes params hn hpn h'
  · exact .inl ⟨_, compile_eq_error hfind, compile_eq_error (hl ▸ hfind)⟩

end Denotations

end Model

end SpectralAlgebra
