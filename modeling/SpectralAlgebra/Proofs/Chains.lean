import SpectralAlgebra.Proofs.Construction

/-!
# Norm convolutions along a chain

A chain is what a model multiplies: the leaves and the composites that are met by passing through
products alone. The algebra looks at the kinds of two operands and refuses the product of two norm
convolutions. That is enough as long as the chain is a transform, whose kind shows whether a norm
convolution is in it. Applied to an additive model it gives an additive model, whose kind does not
show it, and to that another norm convolution may be applied.

So a chain has at most one norm convolution exactly if nowhere along it a norm convolution is
applied to an additive model with one in its own chain (`Model.normConvolutions_once_iff`).
-/

namespace SpectralAlgebra

namespace Model

variable {V : Type}

/-- The models that a model is composed of, operands before what they are operands of. -/
def parts : Model V → List (Model V)
  | .leaf l => [.leaf l]
  | .op id o r x y => parts x ++ parts y ++ [.op id o r x y]

/-- The leaves along the chain of a model, from left to right. -/
def chain : Model V → List (Leaf (ModelData V))
  | .leaf l => [l]
  | .op _ .add _ _ _ => []
  | .op _ .mul _ x y => chain x ++ chain y

/-- The model and those along its chain. -/
def chainParts : Model V → List (Model V)
  | .leaf l => [.leaf l]
  | .op id .add r x y => [.op id .add r x y]
  | .op id .mul r x y => chainParts x ++ chainParts y ++ [.op id .mul r x y]

def normConvolutions (m : Model V) : List (Leaf (ModelData V)) :=
  m.chain.filter fun l => l.data.kind = .convolution .norm

/-- The model applies a norm convolution to an additive model that has one in its chain. -/
def Nested : Model V → Prop
  | .op _ .mul _ x y =>
    kind x = .convolution .norm ∧ kind y = .additive ∧ normConvolutions y ≠ []
  | _ => False

variable {m x y : Model V} {id : NodeId} {r : Resolution}

theorem wellKinded_of_mem_parts {n : Model V} :
    ∀ {m : Model V}, m.WellKinded → n ∈ m.parts → n.WellKinded
  | .leaf l, hw, hn => by
    obtain rfl := List.mem_singleton.1 hn
    exact hw
  | .op id o r x y, hw, hn => by
    simp only [parts, List.mem_append, List.mem_singleton] at hn
    rcases hn with (hn | hn) | rfl
    · exact wellKinded_of_mem_parts hw.1 hn
    · exact wellKinded_of_mem_parts hw.2.1 hn
    · exact hw

theorem normConvolutions_mul :
    normConvolutions (.op id .mul r x y) = x.normConvolutions ++ y.normConvolutions :=
  List.filter_append _ _

/-- The kind of a transform shows whether there is a norm convolution in its chain. -/
theorem length_normConvolutions : ∀ {m : Model V}, m.WellKinded → m.kind ≠ .additive →
    m.normConvolutions.length = if m.kind = .convolution .norm then 1 else 0
  | .leaf l, _, _ => by
    by_cases h : l.data.kind = .convolution .norm <;> simp [normConvolutions, chain, kind, h]
  | .op id o r x y, ⟨hwx, hwy, hr⟩, hk => by
    have ihx := length_normConvolutions hwx
    have ihy := length_normConvolutions hwy
    have hk : r.kind ≠ .additive := hk
    match o, hx : kind x, hy : kind y, r, hr, hk with
    | .mul, .multiplicative, .multiplicative, _, rfl, _
    | .mul, .multiplicative, .convolution .flux, _, rfl, _
    | .mul, .multiplicative, .convolution .norm, _, rfl, _
    | .mul, .convolution .flux, .multiplicative, _, rfl, _
    | .mul, .convolution .flux, .convolution .flux, _, rfl, _
    | .mul, .convolution .flux, .convolution .norm, _, rfl, _
    | .mul, .convolution .norm, .multiplicative, _, rfl, _
    | .mul, .convolution .norm, .convolution .flux, _, rfl, _ =>
      rw [normConvolutions_mul, List.length_append, ihx (by simp [hx]), ihy (by simp [hy]), hx, hy]
      simp [kind]

theorem length_normConvolutions_le_one_iff : ∀ {m : Model V}, m.WellKinded →
    (m.normConvolutions.length ≤ 1 ↔ ∀ n ∈ m.chainParts, ¬ n.Nested)
  | .leaf l, _ => by
    have h : (normConvolutions (.leaf l)).length ≤ 1 := List.length_filter_le _ _
    simp [h, chainParts, Nested]
  | .op id .add r x y, _ => by simp [normConvolutions, chain, chainParts, Nested]
  | .op id .mul r x y, ⟨hwx, hwy, hr⟩ => by
    have ihx := length_normConvolutions_le_one_iff hwx
    have ihy := length_normConvolutions_le_one_iff hwy
    have hself : Nested (.op id .mul r x y) ↔
        kind x = .convolution .norm ∧ kind y = .additive ∧ normConvolutions y ≠ [] := Iff.rfl
    have hall : (∀ n ∈ chainParts (.op id .mul r x y), ¬ Nested n) ↔
        (∀ n ∈ chainParts x, ¬ Nested n) ∧ (∀ n ∈ chainParts y, ¬ Nested n) ∧
          ¬ Nested (.op id .mul r x y) := by
      simp only [chainParts, List.mem_append, List.mem_singleton, or_imp, forall_and, forall_eq,
        and_assoc]
    rw [hall, ← ihx, ← ihy, hself, normConvolutions_mul, List.length_append]
    by_cases hy : kind y = .additive
    · have hx : kind x ≠ .additive := by
        intro hx
        rw [hx, hy] at hr
        cases hr
      have hlen := length_normConvolutions hwx hx
      by_cases hn : kind x = .convolution .norm
      · -- the convolution leaves room for no other to its right
        rw [if_pos hn] at hlen
        simp only [hlen, hn, hy, true_and, ne_eq, Classical.not_not, ← List.length_eq_zero_iff]
        omega
      · rw [if_neg hn] at hlen
        simp only [hlen, hn, false_and, not_false_eq_true, and_true]
        omega
    · have hlen := length_normConvolutions hwy hy
      by_cases hn : kind y = .convolution .norm
      · -- what stands to the left is neither additive nor another norm convolution
        have hx : kind x ≠ .additive ∧ kind x ≠ .convolution .norm := by
          rw [hn] at hr
          constructor <;> intro hx <;> rw [hx] at hr <;> cases hr
        have hlen' := length_normConvolutions hwx hx.1
        rw [if_neg hx.2] at hlen'
        rw [if_pos hn] at hlen
        simp [hlen, hlen', hy]
      · rw [if_neg hn] at hlen
        simp [hlen, hy]

/-- Along the chain of a transform there is at most one norm convolution, and along any chain
exactly if none is applied to an additive model that has one in its own chain. -/
theorem normConvolutions_once_iff (m : Model V) (hm : m.Constructible) : ∀ n ∈ m.parts,
    (n.kind ≠ .additive → n.normConvolutions.length ≤ 1) ∧
      (n.normConvolutions.length ≤ 1 ↔ ∀ k ∈ n.chainParts, ¬ k.Nested) := by
  intro n hn
  have hw := wellKinded_of_mem_parts hm.wellKinded hn
  refine ⟨fun hk => ?_, length_normConvolutions_le_one_iff hw⟩
  rw [length_normConvolutions hw hk]
  split <;> omega

namespace Twice

def conv (k : Nat) : Leaf (ModelData Nat) :=
  ⟨.fresh k, "N", "N", ∅, .convolution .norm, ∅, .normConvolution fun _ _ _ flux _ => .ok flux⟩

def base : Leaf (ModelData Nat) :=
  ⟨.fresh 2, "A", "A", ∅, .additive, ∅, .additive fun _ grid _ => grid.tail⟩

def model : Model Nat :=
  .op (.fresh 4) .mul ⟨.additive, .normAdd⟩ (.leaf (conv 0))
    (.op (.fresh 3) .mul ⟨.additive, .normAdd⟩ (.leaf (conv 1)) (.leaf base))

theorem constructible : model.Constructible := by
  have hn (k : Nat) : Constructible (.leaf (conv k)) := .make (show Model.make (.fresh k) "N" "N"
    (.convolution .norm) [] (.normConvolution fun _ _ _ flux _ => .ok flux) ∅
      = .ok (.leaf (conv k)) from rfl)
  have ha : Constructible (.leaf base) := .make (show Model.make (.fresh 2) "A" "A"
    .additive [] (.additive fun _ grid _ => grid.tail) ∅ = .ok (.leaf base) from rfl)
  have hna := (hn 1).combine ha (show combine (.fresh 3) .mul _ _ = .ok _ from rfl)
  exact (hn 0).combine hna (show combine (.fresh 4) .mul _ _ = .ok model from rfl)

theorem mem_parts : model ∈ model.parts :=
  List.mem_append_right _ (List.mem_singleton_self _)

end Twice

/-- One norm convolution applied to what another was applied to is accepted. -/
theorem normConvolutions_once_iff_twice :
    Twice.model.Constructible ∧ Twice.model ∈ Twice.model.parts ∧
      Twice.model.normConvolutions = [Twice.conv 0, Twice.conv 1] ∧
      ¬ ∀ k ∈ Twice.model.chainParts, ¬ k.Nested := by
  have hn : Twice.model.normConvolutions = [Twice.conv 0, Twice.conv 1] := rfl
  refine ⟨Twice.constructible, Twice.mem_parts, hn, fun h => ?_⟩
  have hle := (normConvolutions_once_iff Twice.model Twice.constructible _ Twice.mem_parts).2.2 h
  rw [hn] at hle
  simp at hle

end Model

end SpectralAlgebra
