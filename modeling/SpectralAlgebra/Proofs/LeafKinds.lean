import Mathlib.Order.MinMax
import SpectralAlgebra.Proofs.Chains

/-!
# What the leaves decide

A composite stores the kind that was found from the kinds of its operands. The kinds can be ordered
by strength, from multiplicative models over flux and norm convolutions to additive models, and
whatever the algebra accepts has the strength of the stronger operand
(`Resolution.strength_of_infer`). So a model is of the strongest kind among its leaves, however it
is put together, and its leaves decide what it can be combined with
(`Model.leaves_decide`).
-/

namespace SpectralAlgebra

/-- The order in which one kind prevails over another. -/
def ModelKind.strength : ModelKind → Nat
  | multiplicative => 0
  | convolution .flux => 1
  | convolution .norm => 2
  | additive => 3

theorem ModelKind.strength_inj : ∀ {k k' : ModelKind}, k.strength = k'.strength → k = k'
  | multiplicative, multiplicative, _ | convolution .flux, convolution .flux, _
  | convolution .norm, convolution .norm, _ | additive, additive, _ => rfl

namespace Resolution

variable {o : Operator} {k₁ k₂ : ModelKind} {r : Resolution}

theorem strength_of_infer (h : infer o k₁ k₂ = .ok r) :
    r.kind.strength = max k₁.strength k₂.strength := by
  match o, k₁, k₂, r, h with
  | .add, .additive, .additive, _, rfl | .mul, .additive, .multiplicative, _, rfl
  | .mul, .multiplicative, .additive, _, rfl | .mul, .multiplicative, .multiplicative, _, rfl
  | .mul, .multiplicative, .convolution .flux, _, rfl
  | .mul, .multiplicative, .convolution .norm, _, rfl
  | .mul, .convolution .flux, .additive, _, rfl | .mul, .convolution .flux, .multiplicative, _, rfl
  | .mul, .convolution .flux, .convolution .flux, _, rfl
  | .mul, .convolution .flux, .convolution .norm, _, rfl
  | .mul, .convolution .norm, .additive, _, rfl | .mul, .convolution .norm, .multiplicative, _, rfl
  | .mul, .convolution .norm, .convolution .flux, _, rfl => rfl

/-- What is accepted is of the kind of one of its operands. -/
theorem kind_of_infer (h : infer o k₁ k₂ = .ok r) : r.kind = k₁ ∨ r.kind = k₂ := by
  have hs := strength_of_infer h
  rcases max_choice k₁.strength k₂.strength with hm | hm
  · exact .inl (ModelKind.strength_inj (hs.trans hm))
  · exact .inr (ModelKind.strength_inj (hs.trans hm))

theorem infer_add_eq_ok_iff :
    (∃ r, infer .add k₁ k₂ = .ok r) ↔ k₁ = .additive ∧ k₂ = .additive := by
  rcases k₁ with _ | _ | c <;> rcases k₂ with _ | _ | c' <;> simp [infer]

theorem infer_add_eq_right_iff :
    infer .add k₁ k₂ = .error (.notAdditive .right) ↔ k₁ = .additive ∧ k₂ ≠ .additive := by
  rcases k₁ with _ | _ | c <;> rcases k₂ with _ | _ | c' <;> simp [infer]

theorem infer_add_eq_left_iff :
    infer .add k₁ k₂ = .error (.notAdditive .left) ↔ k₁ ≠ .additive := by
  rcases k₁ with _ | _ | c <;> rcases k₂ with _ | _ | c' <;> simp [infer]

theorem infer_mul_eq_additiveProduct_iff :
    infer .mul k₁ k₂ = .error .additiveProduct ↔ k₁ = .additive ∧ k₂ = .additive := by
  rcases k₁ with _ | _ | _ | _ <;> rcases k₂ with _ | _ | _ | _ <;> simp [infer]

theorem infer_mul_eq_wrongOrder_iff :
    infer .mul k₁ k₂ = .error .wrongOrder ↔ k₁ = .additive ∧ ∃ c, k₂ = .convolution c := by
  rcases k₁ with _ | _ | _ | _ <;> rcases k₂ with _ | _ | _ | _ <;> simp [infer]

theorem infer_mul_eq_doubleNormConvolution_iff :
    infer .mul k₁ k₂ = .error .doubleNormConvolution ↔
      k₁ = .convolution .norm ∧ k₂ = .convolution .norm := by
  rcases k₁ with _ | _ | _ | _ <;> rcases k₂ with _ | _ | _ | _ <;> simp [infer]

theorem infer_mul_eq_ok_iff : (∃ r, infer .mul k₁ k₂ = .ok r) ↔
    infer .mul k₁ k₂ ≠ .error .additiveProduct ∧ infer .mul k₁ k₂ ≠ .error .wrongOrder ∧
      infer .mul k₁ k₂ ≠ .error .doubleNormConvolution := by
  rcases k₁ with _ | _ | _ | _ <;> rcases k₂ with _ | _ | _ | _ <;> simp [infer]

end Resolution

namespace Model

variable {V : Type} {m x y : Model V} {k : ModelKind} {id : NodeId} {o : Operator}

/-- Some leaf of the model is of the kind. -/
def Has (m : Model V) (k : ModelKind) : Prop := ∃ l ∈ m.leaves, l.data.kind = k

theorem has_op {r : Resolution} : Has (.op id o r x y) k ↔ x.Has k ∨ y.Has k := by
  simp only [Has, Expr.leaves, List.mem_append, or_and_right, exists_or]

theorem has_kind : ∀ {m : Model V}, m.WellKinded → m.Has m.kind
  | .leaf l, _ => ⟨l, List.mem_singleton_self l, rfl⟩
  | .op id o r x y, ⟨hx, hy, hr⟩ => by
    have hkind : kind (.op id o r x y) = r.kind := rfl
    rw [has_op, hkind]
    rcases Resolution.kind_of_infer hr with hk | hk
    · exact .inl (hk ▸ has_kind hx)
    · exact .inr (hk ▸ has_kind hy)

theorem strength_le_of_has : ∀ {m : Model V}, m.WellKinded → m.Has k →
    k.strength ≤ m.kind.strength
  | .leaf l, _, h => by
    obtain ⟨l', hl', rfl⟩ := h
    rw [List.mem_singleton.1 hl']
    exact Nat.le_refl _
  | .op id o r x y, ⟨hx, hy, hr⟩, h => by
    have hs : (kind (.op id o r x y)).strength = _ := Resolution.strength_of_infer hr
    rw [hs]
    rcases has_op.1 h with h | h
    · exact le_max_of_le_left (strength_le_of_has hx h)
    · exact le_max_of_le_right (strength_le_of_has hy h)

/-- A model is of a kind exactly if the kind is the strongest among its leaves. -/
theorem kind_eq_iff (hw : m.WellKinded) :
    m.kind = k ↔ m.Has k ∧ ∀ k', m.Has k' → k'.strength ≤ k.strength := by
  constructor
  · rintro rfl
    exact ⟨has_kind hw, fun k' => strength_le_of_has hw⟩
  · rintro ⟨hk, hle⟩
    exact ModelKind.strength_inj
      (Nat.le_antisymm (hle m.kind (has_kind hw)) (strength_le_of_has hw hk))

theorem kind_eq_additive_iff (hw : m.WellKinded) : m.kind = .additive ↔ m.Has .additive := by
  rw [kind_eq_iff hw]
  exact and_iff_left fun k _ => by rcases k with _ | _ | _ | _ <;> decide

theorem kind_eq_norm_iff (hw : m.WellKinded) (ha : ¬ m.Has .additive) :
    m.kind = .convolution .norm ↔ m.Has (.convolution .norm) := by
  rw [kind_eq_iff hw]
  refine and_iff_left fun k hk => ?_
  rcases k with _ | _ | _ | _
  · exact absurd hk ha
  all_goals decide

theorem kind_eq_flux_iff (hw : m.WellKinded) (ha : ¬ m.Has .additive)
    (hn : ¬ m.Has (.convolution .norm)) :
    m.kind = .convolution .flux ↔ m.Has (.convolution .flux) := by
  rw [kind_eq_iff hw]
  refine and_iff_left fun k hk => ?_
  rcases k with _ | _ | _ | _
  · exact absurd hk ha
  · decide
  · decide
  · exact absurd hk hn

theorem kind_eq_multiplicative (hw : m.WellKinded) (ha : ¬ m.Has .additive)
    (hn : ¬ m.Has (.convolution .norm)) (hf : ¬ m.Has (.convolution .flux)) :
    m.kind = .multiplicative := by
  have hk := has_kind hw
  rcases h : m.kind with _ | _ | _ | _ <;> rw [h] at hk
  · exact absurd hk ha
  · exact absurd hk hf
  · exact absurd hk hn

theorem convolution_iff (hw : m.WellKinded) (ha : ¬ m.Has .additive) :
    (∃ c, m.kind = .convolution c) ↔ ∃ c, m.Has (.convolution c) := by
  constructor
  · rintro ⟨c, hc⟩
    exact ⟨c, hc ▸ has_kind hw⟩
  · rintro ⟨c, hc⟩
    by_cases hn : m.Has (.convolution .norm)
    · exact ⟨.norm, (kind_eq_norm_iff hw ha).2 hn⟩
    · refine ⟨.flux, (kind_eq_flux_iff hw ha hn).2 ?_⟩
      cases c
      · exact hc
      · exact absurd hc hn

/-- A model without additive leaves has no sum in it, so all its leaves are in its chain. -/
theorem chain_eq_leaves : ∀ {m : Model V}, m.WellKinded → ¬ m.Has .additive → m.chain = m.leaves
  | .leaf _, _, _ => rfl
  | .op _ .add _ x y, ⟨hx, _, hr⟩, ha => by
    obtain ⟨hk, -⟩ := Resolution.infer_add_eq_ok_iff.1 ⟨_, hr⟩
    exact absurd (has_op.2 (.inl ((kind_eq_additive_iff hx).1 hk))) ha
  | .op _ .mul _ x y, ⟨hx, hy, _⟩, ha => by
    rw [has_op, not_or] at ha
    rw [chain, chain_eq_leaves hx ha.1, chain_eq_leaves hy ha.2, Expr.leaves]

theorem count_norm (hw : m.WellKinded) (ha : ¬ m.Has .additive)
    (hn : m.Has (.convolution .norm)) :
    m.leaves.countP (fun l => l.data.kind = .convolution .norm) = 1 := by
  have hk := (kind_eq_norm_iff hw ha).2 hn
  have hlen := length_normConvolutions hw (by simp [hk])
  rw [if_pos hk, normConvolutions, chain_eq_leaves hw ha] at hlen
  rw [List.countP_eq_length_filter, hlen]

/-! ## Combining -/

def Accepted (id : NodeId) (o : Operator) (x y : Model V) : Prop :=
  ∃ m, combine id o x y = .ok m

def Rejected (id : NodeId) (o : Operator) (x y : Model V) (reason : Rejection) : Prop :=
  ∃ e, combine id o x y = .error e ∧ e.rejection? = some reason

theorem accepted_iff : Accepted id o x y ↔ ∃ r, Resolution.infer o x.kind y.kind = .ok r := by
  unfold Accepted combine
  split <;> simp_all

theorem rejected_iff {reason : Rejection} :
    Rejected id o x y reason ↔ Resolution.infer o x.kind y.kind = .error reason := by
  unfold Rejected combine
  split <;> simp_all [CompositionError.rejection?]

section Legality

variable (hx : x.WellKinded) (hy : y.WellKinded) (id : NodeId)
include hx hy

theorem rejected_additiveProduct_iff :
    Rejected id .mul x y .additiveProduct ↔ x.Has .additive ∧ y.Has .additive := by
  rw [rejected_iff, Resolution.infer_mul_eq_additiveProduct_iff, kind_eq_additive_iff hx,
    kind_eq_additive_iff hy]

theorem rejected_wrongOrder_iff : Rejected id .mul x y .wrongOrder ↔
    (x.Has .additive ∧ ¬ y.Has .additive) ∧ ∃ c, y.Has (.convolution c) := by
  rw [rejected_iff, Resolution.infer_mul_eq_wrongOrder_iff, kind_eq_additive_iff hx, and_assoc]
  refine and_congr_right fun _ => ⟨fun hc => ?_, fun ⟨ha, hc⟩ => (convolution_iff hy ha).2 hc⟩
  have ha : ¬ y.Has .additive := by
    rw [← kind_eq_additive_iff hy]
    obtain ⟨c, hc⟩ := hc
    simp [hc]
  exact ⟨ha, (convolution_iff hy ha).1 hc⟩

theorem rejected_doubleNormConvolution_iff : Rejected id .mul x y .doubleNormConvolution ↔
    (¬ x.Has .additive ∧ ¬ y.Has .additive) ∧
      x.Has (.convolution .norm) ∧ y.Has (.convolution .norm) := by
  rw [rejected_iff, Resolution.infer_mul_eq_doubleNormConvolution_iff]
  constructor
  · rintro ⟨hnx, hny⟩
    refine ⟨⟨?_, ?_⟩, hnx ▸ has_kind hx, hny ▸ has_kind hy⟩
    · rw [← kind_eq_additive_iff hx]
      simp [hnx]
    · rw [← kind_eq_additive_iff hy]
      simp [hny]
  · rintro ⟨⟨hax, hay⟩, hnx, hny⟩
    exact ⟨(kind_eq_norm_iff hx hax).2 hnx, (kind_eq_norm_iff hy hay).2 hny⟩

end Legality

/-- The leaves of a model decide its kind, and those of two models whether and by which rule they
cannot be combined. -/
theorem leaves_decide (V : Type) :
    (∀ m : Model V, m.Constructible →
      (m.kind = .additive ↔ m.Has .additive) ∧
      (¬ m.Has .additive →
        (m.kind = .convolution .norm ↔ m.Has (.convolution .norm)) ∧
        (m.Has (.convolution .norm) →
          m.leaves.countP (fun l => l.data.kind = .convolution .norm) = 1) ∧
        (¬ m.Has (.convolution .norm) →
          (m.kind = .convolution .flux ↔ m.Has (.convolution .flux)) ∧
          (¬ m.Has (.convolution .flux) → m.kind = .multiplicative)))) ∧
    ∀ x y : Model V, x.Constructible → y.Constructible → ∀ id,
      (Accepted id .add x y ↔ x.Has .additive ∧ y.Has .additive) ∧
      (Rejected id .add x y (.notAdditive .right) ↔ x.Has .additive ∧ ¬ y.Has .additive) ∧
      (Rejected id .add x y (.notAdditive .left) ↔ ¬ x.Has .additive) ∧
      (Rejected id .mul x y .additiveProduct ↔ x.Has .additive ∧ y.Has .additive) ∧
      (Rejected id .mul x y .wrongOrder ↔
        (x.Has .additive ∧ ¬ y.Has .additive) ∧ ∃ c, y.Has (.convolution c)) ∧
      (Rejected id .mul x y .doubleNormConvolution ↔
        (¬ x.Has .additive ∧ ¬ y.Has .additive) ∧
          x.Has (.convolution .norm) ∧ y.Has (.convolution .norm)) ∧
      (Accepted id .mul x y ↔
        ¬ (x.Has .additive ∧ y.Has .additive) ∧
        ¬ ((x.Has .additive ∧ ¬ y.Has .additive) ∧ ∃ c, y.Has (.convolution c)) ∧
        ¬ ((¬ x.Has .additive ∧ ¬ y.Has .additive) ∧
          x.Has (.convolution .norm) ∧ y.Has (.convolution .norm))) := by
  refine ⟨fun m hm => ?_, fun x y hx hy id => ?_⟩
  · have hw := hm.wellKinded
    exact ⟨kind_eq_additive_iff hw, fun ha => ⟨kind_eq_norm_iff hw ha, count_norm hw ha, fun hn =>
      ⟨kind_eq_flux_iff hw ha hn, kind_eq_multiplicative hw ha hn⟩⟩⟩
  · have hx := hx.wellKinded
    have hy := hy.wellKinded
    have product := rejected_additiveProduct_iff hx hy id
    have order := rejected_wrongOrder_iff hx hy id
    have double := rejected_doubleNormConvolution_iff hx hy id
    refine ⟨?_, ?_, ?_, product, order, double, ?_⟩
    · rw [accepted_iff, Resolution.infer_add_eq_ok_iff, kind_eq_additive_iff hx,
        kind_eq_additive_iff hy]
    · rw [rejected_iff, Resolution.infer_add_eq_right_iff, kind_eq_additive_iff hx, Ne,
        kind_eq_additive_iff hy]
    · rw [rejected_iff, Resolution.infer_add_eq_left_iff, Ne, kind_eq_additive_iff hx]
    · rw [accepted_iff, Resolution.infer_mul_eq_ok_iff, ← product, ← order, ← double, rejected_iff,
        rejected_iff, rejected_iff]

namespace Twice

theorem constructible_conv (k : Nat) : Constructible (.leaf (conv k)) := .make
  (show Model.make (.fresh k) "N" "N" (.convolution .norm) []
    (.normConvolution fun _ _ _ flux _ => .ok flux) ∅ = .ok (.leaf (conv k)) from rfl)

theorem has_conv (k : Nat) : Has (.leaf (conv k)) (.convolution .norm) :=
  ⟨conv k, List.mem_singleton_self _, rfl⟩

theorem not_additive_conv (k : Nat) : ¬ Has (.leaf (conv k)) .additive := by
  rintro ⟨l, hl, hk⟩
  cases List.mem_singleton.1 hl
  cases hk

end Twice

/-- A model with an additive leaf is no transform, though two norm convolutions are all that is
applied in it, so a convolution is refused to its right. Two of them do not combine either. -/
theorem leaves_decide_twice :
    Twice.model.kind = .additive ∧
      Rejected (.fresh 5) .mul Twice.model (.leaf (Twice.conv 1)) .wrongOrder ∧
      Rejected (.fresh 5) .mul (.leaf (Twice.conv 0)) (.leaf (Twice.conv 1))
        .doubleNormConvolution := by
  obtain ⟨kinds, legality⟩ := leaves_decide Nat
  have hm : Twice.model.Has .additive := ⟨Twice.base, by simp [Twice.model, Expr.leaves], rfl⟩
  have h₀ := Twice.constructible_conv 0
  have h₁ := Twice.constructible_conv 1
  obtain ⟨-, -, -, -, order, -⟩ := legality Twice.model _ Twice.constructible h₁ (.fresh 5)
  obtain ⟨-, -, -, -, -, double, -⟩ := legality _ _ h₀ h₁ (.fresh 5)
  exact ⟨(kinds _ Twice.constructible).1.2 hm,
    order.2 ⟨⟨hm, Twice.not_additive_conv 1⟩, .norm, Twice.has_conv 1⟩,
    double.2 ⟨⟨Twice.not_additive_conv 0, Twice.not_additive_conv 1⟩, Twice.has_conv 0,
      Twice.has_conv 1⟩⟩

end Model

end SpectralAlgebra
